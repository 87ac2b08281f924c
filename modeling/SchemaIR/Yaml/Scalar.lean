import SchemaIR.Number.Base
import SchemaIR.Number.Integer
import SchemaIR.Yaml.Cursor

/-!
# YAML scalars

Scalars are plain, quoted or blocks. In plain and quoted scalars a line break becomes a
space and further ones become newlines. A block keeps its lines, without the indentation
of the first; a folded block joins them as a plain scalar would, except around lines that
are indented more.
-/

namespace SchemaIR.Yaml

/-- What line breaks inside a scalar stand for: a single newline for a space, and further
breaks for themselves. -/
def foldBreaks : List Char → List Char
  | '\n' :: [] => [' ']
  | '\n' :: further => further
  | breaks => breaks

/-- What a run of white space inside a scalar stands for: itself on one line, otherwise
what its line breaks stand for. -/
def foldSpace (space : List Char) : List Char :=
  if space.any isBreak then foldBreaks (space.filter isBreak) else space

/-! ## Plain scalars -/

/-- Whether a character is an indicator of flow collections. -/
def isFlowIndicator (c : Char) : Bool := c ∈ [',', '[', ']', '{', '}']

/-- Whether a plain scalar ends here. -/
def plainStops (inFlow : Bool) : List Char → Bool
  | [] => true
  | c :: rest => (c = ':' && startsBlank rest) || (inFlow && isFlowIndicator c)

/-- Whether a colon stands here that may neither end nor continue a plain scalar. -/
def strayColon (inFlow : Bool) : List Char → Bool
  | ':' :: c :: _ => inFlow && (isFlowIndicator c || c = '?')
  | _ => false

/-- The characters of a plain scalar up to white space, last first. -/
def plainWord (inFlow : Bool) (sofar : List Char) : List Char → Option (List Char)
  | [] => some sofar
  | c :: rest =>
    if isSpace c then some sofar
    else if strayColon inFlow (c :: rest) then none
    else if plainStops inFlow (c :: rest) then some sofar
    else plainWord inFlow (c :: sofar) rest

/-- Whether a tab stands where a line has to be indented by spaces. -/
def tabIndents (indent : Int) : Cursor → Bool → List Char → Bool
  | _, _, [] => false
  | cur, broken, c :: space =>
    (broken && c = '\t' && (cur.column : Int) < indent) ||
      tabIndents indent (cur.past [c]) (broken || isBreak c) space

/-- Reads a plain scalar word by word and the white space behind it. The characters so far
come last first, and `space` is what stands between them and the next word. Outside of
brackets the scalar goes on over a line break as long as the next line is indented by
`indent`. Also tells whether the scalar ends in front of a line break. -/
def plainText (inFlow : Bool) (indent : Int) : Nat → List Char → List Char → Cursor →
    Option (List Char × Bool × Cursor)
  | 0, _, _, _ => none
  | fuel + 1, sofar, space, cur =>
    let finish (sofar space : List Char) (cur : Cursor) : Option (List Char × Bool × Cursor) :=
      some (sofar.reverse, space.any isBreak, cur)
    if cur.atDocumentMark || cur.rest.head? = some '#' then finish sofar space cur
    else
      match plainWord inFlow [] cur.rest with
      | none => none
      | some word =>
        let sofar := if word.isEmpty then sofar else word ++ ((foldSpace space).reverse ++ sofar)
        let space := if word.isEmpty then space else []
        let behind := cur.skip word.length
        let run := behind.rest.takeWhile isSpace
        let next := behind.past run
        if run.isEmpty then finish sofar space behind
        else if tabIndents indent behind false run then none
        else if !inFlow && (next.column : Int) < indent then finish sofar run next
        else plainText inFlow indent fuel sofar run next

/-- Whether a plain scalar may start here. -/
def plainStarts (inFlow : Bool) : List Char → Bool
  | [] => false
  | c :: rest =>
    if c = '-' then !startsBlank rest
    else if c = '?' || c = ':' then !inFlow && !startsBlank rest
    else !(isSpace c || isFlowIndicator c ||
      c ∈ ['#', '&', '*', '!', '|', '>', '\'', '"', '%', '@', '\x60'])

/-! ## Quoted scalars -/

/-- The character that an escape of one letter stands for. -/
def escaped? (c : Char) : Option Char :=
  match c with
  | '0' => some '\x00'
  | 'a' => some '\x07'
  | 'b' => some '\x08'
  | 't' => some '\t'
  | '\t' => some '\t'
  | 'n' => some '\n'
  | 'v' => some '\x0b'
  | 'f' => some '\x0c'
  | 'r' => some '\r'
  | 'e' => some '\x1b'
  | ' ' => some ' '
  | '"' => some '"'
  | '/' => some '/'
  | '\\' => some '\\'
  | 'N' => some '\u0085'
  | '_' => some '\u00a0'
  | 'L' => some '\u2028'
  | 'P' => some '\u2029'
  | _ => none

/-- How many hexadecimal digits follow an escape letter. -/
def escapeWidth? (c : Char) : Option Nat :=
  match c with
  | 'x' => some 2
  | 'u' => some 4
  | 'U' => some 8
  | _ => none

/-- Reads an escape from its backslash on: the characters that it stands for and the
characters that it takes. A line break is taken together with the white space behind it
and stands for the line breaks in there. -/
def escape (rest : List Char) : Option (List Char × List Char) :=
  match rest with
  | '\\' :: c :: behind =>
    if isBreak c then
      let space := behind.takeWhile isSpace
      some (space.filter isBreak, '\\' :: c :: space)
    else
      match escaped? c, escapeWidth? c with
      | some char, _ => some ([char], ['\\', c])
      | none, some width =>
        (Number.codePoint? (behind.take width) width).map
          fun char => ([char], '\\' :: c :: behind.take width)
      | none, none => none
  | _ => none

/-- Reads a quoted scalar from behind its opening quote, the characters so far last
first. -/
def quotedText (double : Bool) : Nat → List Char → Cursor → Option (List Char × Cursor)
  | 0, _, _ => none
  | fuel + 1, sofar, cur =>
    if cur.atDocumentMark then none
    else
      match cur.rest with
      | [] => none
      | c :: rest =>
        if isSpace c then
          let space := cur.rest.takeWhile isSpace
          quotedText double fuel ((foldSpace space).reverse ++ sofar) (cur.past space)
        else if double && c = '\\' then
          match escape cur.rest with
          | some (chars, taken) =>
            quotedText double fuel (chars.reverse ++ sofar) (cur.past taken)
          | none => none
        else if !double && c = '\'' && rest.head? = some '\'' then
          quotedText double fuel ('\'' :: sofar) (cur.skip 2)
        else if c = (if double then '"' else '\'') then some (sofar.reverse, cur.skip 1)
        else quotedText double fuel (c :: sofar) (cur.skip 1)

/-! ## Block scalars -/

/-- What becomes of the line breaks at the end of a block. -/
inductive Chomping where
  | strip
  | clip
  | keep
deriving DecidableEq

/-- The header of a block. -/
structure BlockHeader where
  chomping : Chomping := .clip
  /-- By how much the block is indented, if that is written out. -/
  increment : Option Nat := none

/-- Reads how a block is chomped, if that is written out. -/
def readChomping (header : BlockHeader) (cur : Cursor) : BlockHeader × Cursor :=
  match cur.rest with
  | '+' :: _ => ({ header with chomping := .keep }, cur.skip 1)
  | '-' :: _ => ({ header with chomping := .strip }, cur.skip 1)
  | _ => (header, cur)

/-- Reads by how much a block is indented, if that is written out. -/
def readIncrement (header : BlockHeader) (cur : Cursor) : Option (BlockHeader × Cursor) :=
  match cur.rest.head?.bind Number.digit? with
  | some 0 => none
  | some n => some ({ header with increment := some n }, cur.skip 1)
  | none => some (header, cur)

/-- Reads the header of a block from behind its indicator to the end of the line: how to
chomp and how far to indent, in any order. -/
def readHeader (cur : Cursor) : Option (BlockHeader × Cursor) := do
  let (first, behind) := readChomping {} cur
  let (header, behind) ← readIncrement first behind
  let (header, behind) :=
    if first.chomping = .clip then readChomping header behind else (header, behind)
  let behind := (behind.skipWhile isBlank).skipComment
  if endsLine behind.rest then some (header, behind.past (behind.rest.take 1)) else none

/-- Moves over the indentation of a line, up to a column if one is given. -/
def skipIndent (column : Option Nat) (cur : Cursor) : Cursor :=
  let spaces := cur.rest.takeWhile (· = ' ')
  match column with
  | some column => cur.past (spaces.take (column - cur.column))
  | none => cur.past spaces

/-- Moves over empty lines and the indentation of the line behind them. The line breaks so
far come last first. Also the greatest column that was reached. A tab may not stand where
spaces are expected. -/
def emptyLines (indent : Option Nat) : Nat → Nat → List Char → Cursor →
    Option (List Char × Nat × Cursor)
  | 0, _, _, _ => none
  | fuel + 1, widest, breaks, cur =>
    let cur := skipIndent indent cur
    let widest := max widest cur.column
    match cur.rest with
    | [] => some (breaks, widest, cur)
    | c :: _ =>
      if c = '\t' && indent.all (cur.column < ·) then none
      else if isBreak c then emptyLines indent fuel widest (c :: breaks) (cur.past [c])
      else some (breaks, widest, cur)

/-- The text of a block so far. -/
structure BlockText where
  /-- The characters, last first. -/
  chars : List Char := []
  /-- The line break behind the last line, if there is one. -/
  lineBreak : List Char := []
  /-- The line breaks of the empty lines after it, last first. -/
  emptyLines : List Char := []
  /-- Whether the last line started with a blank. -/
  startedBlank : Bool := false

/-- Adds a line to a block. -/
def BlockText.push (block : BlockText) (folded : Bool) (line : List Char) : BlockText :=
  let blank := (line.head?.map isBlank).getD false
  let joint :=
    if folded && block.lineBreak = ['\n'] && !block.startedBlank && !blank then
      if block.emptyLines.isEmpty then [' '] else []
    else block.lineBreak
  { chars := line.reverse ++ (block.emptyLines ++ (joint ++ block.chars))
    startedBlank := blank }

/-- Reads the lines of a block that are indented up to a column. -/
def blockLines (folded : Bool) (indent : Nat) : Nat → BlockText → Cursor →
    Option (BlockText × Cursor)
  | 0, _, _ => none
  | fuel + 1, block, cur =>
    if cur.column ≠ indent || cur.rest.isEmpty then some (block, cur)
    else
      let line := cur.rest.takeWhile (!isBreak ·)
      let behind := cur.past line
      let lineBreak := behind.rest.take 1
      let next := behind.past lineBreak
      match Yaml.emptyLines (some indent) (next.rest.length + 1) 0 [] next with
      | none => none
      | some (breaks, _, next) =>
        let block := block.push folded line
        blockLines folded indent fuel { block with lineBreak, emptyLines := breaks } next

/-- The text of a finished block. -/
def BlockText.finish (block : BlockText) (chomping : Chomping) : List Char :=
  let tail :=
    match chomping with
    | .strip => []
    | .clip => block.lineBreak
    | .keep => block.emptyLines ++ block.lineBreak
  (tail ++ block.chars).reverse

/-- Reads a block scalar from behind its indicator on, inside a collection at `indent`. -/
def blockText (folded : Bool) (indent : Int) (cur : Cursor) : Option (List Char × Cursor) := do
  let (header, start) ← readHeader cur
  let given := header.increment.map fun n => (max indent 0).toNat + n
  let (breaks, widest, body) ← emptyLines given (start.rest.length + 1) 0 [] start
  let column := given.getD (max widest (max (indent + 1) 1).toNat)
  let (block, behind) ←
    blockLines folded column (body.rest.length + 2) { emptyLines := breaks } body
  return (block.finish header.chomping, behind)

end SchemaIR.Yaml
