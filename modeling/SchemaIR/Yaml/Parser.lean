import SchemaIR.Yaml.Token

/-!
# Reading YAML

A text holds a single document, which is a node: a scalar, a sequence or a mapping. An
alias stands for the node that has the anchor of its name; it has to come after that node.
Tags are not part of the language read here. A text without content is a document with an
empty plain scalar.
-/

namespace SchemaIR.Yaml

/-- The node for something left out. -/
def absent : Node := .plain ""

/-- What is left to read and the nodes that have an anchor. -/
structure Parsing where
  tokens : List Token
  anchors : List (String × Node) := []

/-- Where a node is expected, which decides which collections it may be. -/
inductive Place where
  /-- Inside of brackets. -/
  | flow
  | block
  /-- Behind the mark of a key or value, where the entries of a sequence need not be
  indented. -/
  | entry
deriving DecidableEq

/-- Whether a node that is neither alias nor anchor starts here. -/
def startsContent (place : Place) : List Token → Bool
  | .scalar _ :: _ => true
  | .flowSequenceStart :: _ => true
  | .flowMappingStart :: _ => true
  | .blockSequenceStart :: _ => place ≠ .flow
  | .blockMappingStart :: _ => place ≠ .flow
  | .blockEntry :: _ => place = .entry
  | _ => false

/-- Whether the next entry of a block mapping, its value or its end follows. -/
def endsBlockPart : List Token → Bool
  | .key :: _ => true
  | .value :: _ => true
  | .blockEnd :: _ => true
  | _ => false

/-- Whether the next entry of a block sequence or its end follows. -/
def endsBlockItem : List Token → Bool
  | .blockEntry :: _ => true
  | .blockEnd :: _ => true
  | _ => false

/-- Whether a comma or the closing bracket follows. -/
def endsFlowPart (inMapping : Bool) : List Token → Bool
  | .flowEntry :: _ => true
  | .flowSequenceEnd :: _ => !inMapping
  | .flowMappingEnd :: _ => inMapping
  | _ => false

/-- Whether a colon follows. -/
def atValue : List Token → Bool
  | .value :: _ => true
  | _ => false

/-- What stands behind the comma in front of an entry that is not the first one. -/
def afterComma? (first : Bool) (tokens : List Token) : Option (List Token) :=
  if first then some tokens
  else
    match tokens with
    | .flowEntry :: rest => some rest
    | _ => none

mutual

/-- Reads a node. -/
def node : Nat → Place → Parsing → Option (Node × Parsing)
  | 0, _, _ => none
  | fuel + 1, place, p =>
    match p.tokens with
    | .alias name :: rest => (p.anchors.lookup name).map (·, { p with tokens := rest })
    | .anchor name :: rest => do
      let p := { p with tokens := rest }
      let (node, p) ← if startsContent place rest then content fuel place p else some (absent, p)
      return (node, { p with anchors := (name, node) :: p.anchors })
    | _ => content fuel place p

/-- Reads a node that is neither alias nor anchor. -/
def content : Nat → Place → Parsing → Option (Node × Parsing)
  | 0, _, _ => none
  | fuel + 1, place, p =>
    if !startsContent place p.tokens then none
    else
      let behind := { p with tokens := p.tokens.drop 1 }
      match p.tokens with
      | .scalar node :: _ => some (node, behind)
      | .flowSequenceStart :: _ => do
        let (items, p) ← flowItems fuel true behind
        return (.seq items, p)
      | .flowMappingStart :: _ => do
        let (entries, p) ← flowEntries fuel true behind
        return (.map entries, p)
      | .blockSequenceStart :: _ => do
        let (items, p) ← blockItems fuel behind
        return (.seq items, p)
      | .blockMappingStart :: _ => do
        let (entries, p) ← blockEntries fuel behind
        return (.map entries, p)
      | .blockEntry :: _ => do
        let (items, p) ← bareItems fuel p
        return (.seq items, p)
      | _ => none

/-- Reads the items of a block sequence and its end. -/
def blockItems : Nat → Parsing → Option (List Node × Parsing)
  | 0, _ => none
  | fuel + 1, p =>
    match p.tokens with
    | .blockEntry :: rest => do
      let p := { p with tokens := rest }
      let (item, p) ← if endsBlockItem rest then some (absent, p) else node fuel .block p
      let (items, p) ← blockItems fuel p
      return (item :: items, p)
    | .blockEnd :: rest => some ([], { p with tokens := rest })
    | _ => none

/-- Reads the items of a sequence that is not indented. -/
def bareItems : Nat → Parsing → Option (List Node × Parsing)
  | 0, _ => none
  | fuel + 1, p =>
    match p.tokens with
    | .blockEntry :: rest => do
      let p := { p with tokens := rest }
      let (item, p) ←
        if endsBlockItem rest || endsBlockPart rest then some (absent, p) else node fuel .block p
      let (items, p) ← bareItems fuel p
      return (item :: items, p)
    | _ => some ([], p)

/-- Reads the entries of a block mapping and its end. -/
def blockEntries : Nat → Parsing → Option (List (Node × Node) × Parsing)
  | 0, _ => none
  | fuel + 1, p =>
    match p.tokens with
    | .key :: rest => do
      let p := { p with tokens := rest }
      let (key, p) ← if endsBlockPart rest then some (absent, p) else node fuel .entry p
      let (value, p) ← blockValue fuel p
      let (entries, p) ← blockEntries fuel p
      return ((key, value) :: entries, p)
    | .blockEnd :: rest => some ([], { p with tokens := rest })
    | _ => none

/-- Reads the value behind a key of a block mapping. -/
def blockValue : Nat → Parsing → Option (Node × Parsing)
  | 0, _ => none
  | fuel + 1, p =>
    match p.tokens with
    | .value :: rest =>
      let p := { p with tokens := rest }
      if endsBlockPart rest then some (absent, p) else node fuel .entry p
    | _ => some (absent, p)

/-- Reads the items of a flow sequence and its end. An item with a colon is a mapping of its
own. -/
def flowItems : Nat → Bool → Parsing → Option (List Node × Parsing)
  | 0, _, _ => none
  | fuel + 1, first, p =>
    match p.tokens with
    | .flowSequenceEnd :: rest => some ([], { p with tokens := rest })
    | _ => do
      let tokens ← afterComma? first p.tokens
      match tokens with
      | .flowSequenceEnd :: rest => return ([], { p with tokens := rest })
      | .key :: rest =>
        let p := { p with tokens := rest }
        let (key, p) ←
          if atValue rest || endsFlowPart false rest then
            some (absent, { p with tokens := rest.drop 1 })
          else node fuel .flow p
        let (value, p) ← flowValue fuel false p
        let (items, p) ← flowItems fuel false p
        return (.map [(key, value)] :: items, p)
      | _ =>
        let (item, p) ← node fuel .flow { p with tokens }
        let (items, p) ← flowItems fuel false p
        return (item :: items, p)

/-- Reads the entries of a flow mapping and its end. A key may stand without a colon. -/
def flowEntries : Nat → Bool → Parsing → Option (List (Node × Node) × Parsing)
  | 0, _, _ => none
  | fuel + 1, first, p =>
    match p.tokens with
    | .flowMappingEnd :: rest => some ([], { p with tokens := rest })
    | _ => do
      let tokens ← afterComma? first p.tokens
      match tokens with
      | .flowMappingEnd :: rest => return ([], { p with tokens := rest })
      | .key :: rest =>
        let p := { p with tokens := rest }
        let (key, p) ←
          if atValue rest || endsFlowPart true rest then some (absent, p) else node fuel .flow p
        let (value, p) ← flowValue fuel true p
        let (entries, p) ← flowEntries fuel false p
        return ((key, value) :: entries, p)
      | _ =>
        let (key, p) ← node fuel .flow { p with tokens }
        let (entries, p) ← flowEntries fuel false p
        return ((key, absent) :: entries, p)

/-- Reads the value behind a key inside of brackets. -/
def flowValue : Nat → Bool → Parsing → Option (Node × Parsing)
  | 0, _, _ => none
  | fuel + 1, inMapping, p =>
    match p.tokens with
    | .value :: rest =>
      let p := { p with tokens := rest }
      if endsFlowPart inMapping rest then some (absent, p) else node fuel .flow p
    | _ => some (absent, p)

end

/-! ## Documents -/

/-- Whether a document has nothing between its marks. -/
def endsDocument : List Token → Bool
  | [] => true
  | .documentStart :: _ => true
  | .documentEnd :: _ => true
  | .version :: _ => true
  | _ => false

/-- Whether nothing but the mark that a document has ended is left. -/
def isFinished : List Token → Bool
  | [] => true
  | .documentEnd :: rest => isFinished rest
  | _ => false

/-- Reads the content of a document, which may be left out behind the mark that it
starts. -/
def document (marked : Bool) (tokens : List Token) : Option Node :=
  if marked && endsDocument tokens then
    if isFinished tokens then some absent else none
  else
    match node (4 * tokens.length + 4) .block { tokens } with
    | some (node, p) => if isFinished p.tokens then some node else none
    | none => none

/-- Reads the tokens of a text that holds one document. -/
def ofTokens? : List Token → Option Node
  | [] => some absent
  | .version :: .documentStart :: rest => document true rest
  | .documentStart :: rest => document true rest
  | tokens => document false tokens

/-- Reads a text that holds one document. -/
def parse? (text : String) : Option Node :=
  let cs :=
    match text.toList with
    | '\ufeff' :: rest => rest
    | cs => cs
  if cs.all isAllowed then (tokens? (unifyBreaks cs)).bind ofTokens? else none

end SchemaIR.Yaml
