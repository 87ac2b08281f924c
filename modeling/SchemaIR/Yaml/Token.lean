import SchemaIR.Document.Node
import SchemaIR.Yaml.Scalar

/-!
# YAML tokens

Tokens make the layout of a text explicit: where a block collection starts and ends, and
what is a key. A block collection starts at the first entry or key in a column further
right than that of the collection around it, and ends in front of the first token further
left.

That something is a key shows only at the colon behind it. So while tokens are read, the
last place where a key may have started is kept, for every level of brackets; the colon
has to follow on the same line and within `keyLimit` characters. Outside of brackets
a key is required where something starts in the column of a mapping.
-/

namespace SchemaIR.Yaml

/-- The tokens of a text. -/
inductive Token where
  | version
  | documentStart
  | documentEnd
  | blockSequenceStart
  | blockMappingStart
  | blockEnd
  | flowSequenceStart
  | flowSequenceEnd
  | flowMappingStart
  | flowMappingEnd
  | blockEntry
  | flowEntry
  | key
  | value
  | anchor (name : String)
  | alias (name : String)
  | scalar (node : Node)

/-- A place where a key may have started. -/
structure KeyStart where
  /-- How many tokens stand in front of it. -/
  position : Nat
  index : Nat
  line : Nat
  column : Nat
  /-- Whether nothing but a key may stand here. -/
  required : Bool

/-- How far behind the start of a key its colon may stand. -/
def keyLimit : Nat := 1024

/-- The state of reading tokens. -/
structure Scanner where
  cur : Cursor
  tokens : Array Token := #[]
  /-- The columns of the block collections around, the innermost first. -/
  columns : List Nat := []
  /-- Whether a key may start here. -/
  keyAllowed : Bool := true
  /-- Where a key may have started, at this level of brackets. -/
  keyStart : Option KeyStart := none
  /-- Where keys may have started at the levels around, the innermost first. -/
  outerStarts : List (Option KeyStart) := []

namespace Scanner

/-- Whether brackets are open. -/
def inFlow (s : Scanner) : Bool := !s.outerStarts.isEmpty

/-- The column of the innermost block collection, one to the left of the text if there is
none. -/
def indent (s : Scanner) : Int :=
  match s.columns with
  | [] => -1
  | column :: _ => column

/-- Adds a token. -/
def emit (s : Scanner) (token : Token) : Scanner := { s with tokens := s.tokens.push token }

/-- Adds a token that takes a number of characters. -/
def take (s : Scanner) (token : Token) (width : Nat) : Scanner :=
  { s.emit token with cur := s.cur.skip width }

/-- Starts a block collection in a column, unless one is there already, with its token in
the given position. -/
def openBlock (s : Scanner) (column position : Nat) (token : Token) : Scanner :=
  if !s.inFlow && s.indent < column then
    { s with
      columns := column :: s.columns
      tokens := s.tokens.insertIdxIfInBounds position token }
  else s

/-- Ends the block collections further right than a column. -/
def closeBlocks (column : Int) : List Nat → Scanner → Scanner
  | [], s => s
  | innermost :: outer, s =>
    if !s.inFlow && column < innermost then
      closeBlocks column outer { s.emit .blockEnd with columns := outer }
    else s

/-- Ends the block collections further right than a column. -/
def closeTo (s : Scanner) (column : Int) : Scanner := closeBlocks column s.columns s

/-- Gives up the key that may have started; a required one may not be given up. -/
def dropKey (s : Scanner) : Option Scanner :=
  match s.keyStart with
  | some start => if start.required then none else some { s with keyStart := none }
  | none => some s

/-- Remembers that a key may start here. -/
def saveKey (s : Scanner) : Option Scanner :=
  if s.keyAllowed then do
    let s ← s.dropKey
    let start : KeyStart :=
      { position := s.tokens.size
        index := s.cur.index
        line := s.cur.line
        column := s.cur.column
        required := !s.inFlow && s.indent = s.cur.column }
    return { s with keyStart := some start }
  else some s

/-- What is left of a possible key here: nothing on a later line or too far behind. -/
def refresh (s : Scanner) : Option KeyStart → Option (Option KeyStart)
  | none => some none
  | some start =>
    if start.line < s.cur.line || start.index + keyLimit < s.cur.index then
      if start.required then none else some none
    else some (some start)

/-- Gives up all possible keys that are too far behind. -/
def refreshKeys (s : Scanner) : Option Scanner := do
  let keyStart ← s.refresh s.keyStart
  let outerStarts ← s.outerStarts.mapM s.refresh
  return { s with keyStart, outerStarts }

/-- Moves to the next token over blanks, comments and line breaks. Where a block
collection may start, a tab is no indentation. Behind a line break a key may start,
except in brackets. -/
def toToken : Nat → Scanner → Scanner
  | 0, s => s
  | fuel + 1, s =>
    let tabs := s.inFlow || !s.keyAllowed
    let cur := (s.cur.skipWhile fun c => c = ' ' || (tabs && c = '\t')).skipComment
    match cur.rest with
    | c :: _ =>
      if isBreak c then
        toToken fuel { s with cur := cur.past [c], keyAllowed := s.keyAllowed || !s.inFlow }
      else { s with cur }
    | [] => { s with cur }

/-- Ends all block collections in front of a mark or directive. -/
def leaveDocument (s : Scanner) : Option Scanner := do
  let s ← (s.closeTo (-1)).dropKey
  return { s with keyAllowed := false }

/-- Reads the directive that gives the version. No other one is known. -/
def readVersion (s : Scanner) : Option Scanner := do
  let s ← s.leaveDocument
  match s.cur.rest with
  | '%' :: 'Y' :: 'A' :: 'M' :: 'L' :: c :: _ =>
    if !isBlank c then none
    else
      let cur := (s.cur.skip 5).skipWhile isBlank
      match cur.rest with
      | '1' :: '.' :: minor :: _ =>
        let cur := ((cur.skip 3).skipWhile isBlank).skipComment
        if (minor = '1' || minor = '2') && endsLine cur.rest then
          some { s.emit .version with cur }
        else none
      | _ => none
  | _ => none

/-- Opens brackets. A key may be in brackets as a whole, and may start inside of them. -/
def openFlow (s : Scanner) (token : Token) : Option Scanner := do
  let s ← s.saveKey
  return { s.take token 1 with
    outerStarts := s.keyStart :: s.outerStarts
    keyStart := none
    keyAllowed := true }

/-- Closes brackets. -/
def closeFlow (s : Scanner) (token : Token) : Option Scanner := do
  let s ← s.dropKey
  let s := { s.take token 1 with keyAllowed := false }
  match s.outerStarts with
  | [] => return s
  | keyStart :: outerStarts => return { s with keyStart, outerStarts }

/-- Reads a comma in brackets. -/
def readComma (s : Scanner) : Option Scanner := do
  let s ← s.dropKey
  return { s.take .flowEntry 1 with keyAllowed := true }

/-- Opens a block collection here, where a key may start or not at all. -/
def openHere (s : Scanner) (token : Token) : Option Scanner :=
  if s.inFlow then some s
  else if s.keyAllowed then some (s.openBlock s.cur.column s.tokens.size token)
  else none

/-- Reads the dash of an entry. -/
def readDash (s : Scanner) : Option Scanner := do
  let s ← (← s.openHere .blockSequenceStart).dropKey
  return { s.take .blockEntry 1 with keyAllowed := true }

/-- Reads the question mark of a key. -/
def readQuestion (s : Scanner) : Option Scanner := do
  let s ← (← s.openHere .blockMappingStart).dropKey
  return { s.take .key 1 with keyAllowed := !s.inFlow }

/-- Reads the colon of a value. It makes a key of what may have started as one. -/
def readColon (s : Scanner) : Option Scanner :=
  match s.keyStart with
  | some start =>
    let s := { s with tokens := s.tokens.insertIdxIfInBounds start.position .key, keyStart := none }
    let s := s.openBlock start.column start.position .blockMappingStart
    some { s.take .value 1 with keyAllowed := false }
  | none => do
    let s ← s.openHere .blockMappingStart
    return { s.take .value 1 with keyAllowed := !s.inFlow }

/-- Whether a character may occur in the name of an anchor. -/
def isNameChar (c : Char) : Bool := c.isAlphanum || c = '_' || c = '-'

/-- Whether the name of an anchor may end here. -/
def endsName : List Char → Bool
  | [] => true
  | c :: _ => isSpace c || c ∈ ['?', ':', ',', ']', '}', '%', '@', '\x60']

/-- Reads an anchor or alias. -/
def readName (s : Scanner) (token : String → Token) : Option Scanner := do
  let s ← s.saveKey
  let name := (s.cur.rest.drop 1).takeWhile isNameChar
  let s := { s.take (token (String.ofList name)) (name.length + 1) with keyAllowed := false }
  if name.isEmpty || !endsName s.cur.rest then none else some s

/-- Reads a block scalar. -/
def readBlock (s : Scanner) (folded : Bool) : Option Scanner := do
  let s ← s.dropKey
  let (text, cur) ← blockText folded s.indent (s.cur.skip 1)
  return { s.emit (.scalar (.string (String.ofList text))) with cur, keyAllowed := true }

/-- Reads a quoted scalar. -/
def readQuoted (s : Scanner) (double : Bool) : Option Scanner := do
  let s ← s.saveKey
  let (text, cur) ← quotedText double (s.cur.rest.length + 1) [] (s.cur.skip 1)
  return { s.emit (.scalar (.string (String.ofList text))) with cur, keyAllowed := false }

/-- Reads a plain scalar. Behind a line break a key may start. -/
def readPlain (s : Scanner) : Option Scanner := do
  let s ← s.saveKey
  let (text, broken, cur) ←
    plainText s.inFlow (s.indent + 1) (s.cur.rest.length + 1) [] [] s.cur
  return { s.emit (.scalar (.plain (String.ofList text))) with cur, keyAllowed := broken }

/-- Reads the next token, from its first character on. -/
def readToken (s : Scanner) : Option Scanner :=
  let flow := s.inFlow
  if s.cur.column = 0 && s.cur.rest.head? = some '%' then s.readVersion
  else if s.cur.atMark '-' then s.leaveDocument.map (·.take .documentStart 3)
  else if s.cur.atMark '.' then s.leaveDocument.map (·.take .documentEnd 3)
  else
    match s.cur.rest with
    | [] => some s
    | c :: rest =>
      if c = '[' then s.openFlow .flowSequenceStart
      else if c = '{' then s.openFlow .flowMappingStart
      else if c = ']' then s.closeFlow .flowSequenceEnd
      else if c = '}' then s.closeFlow .flowMappingEnd
      else if c = ',' then s.readComma
      else if c = '-' && startsBlank rest then s.readDash
      else if c = '?' && (flow || startsBlank rest) then s.readQuestion
      else if c = ':' && (flow || startsBlank rest) then s.readColon
      else if c = '*' then s.readName .alias
      else if c = '&' then s.readName .anchor
      else if c = '|' && !flow then s.readBlock false
      else if c = '>' && !flow then s.readBlock true
      else if c = '\'' then s.readQuoted false
      else if c = '"' then s.readQuoted true
      else if plainStarts flow s.cur.rest then s.readPlain
      else none

/-- Reads all tokens. -/
def readAll : Nat → Scanner → Option (Array Token)
  | 0, _ => none
  | fuel + 1, s => do
    let s ← (toToken (s.cur.rest.length + 1) s).refreshKeys
    let s := s.closeTo s.cur.column
    if s.cur.rest.isEmpty then
      let s ← s.leaveDocument
      return s.tokens
    else readAll fuel (← s.readToken)

end Scanner

/-- The tokens of a text. -/
def tokens? (cs : List Char) : Option (List Token) :=
  (Scanner.readAll (cs.length + 1) { cur := { rest := cs } }).map Array.toList

end SchemaIR.Yaml
