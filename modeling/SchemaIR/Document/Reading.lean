import SchemaIR.Document.Node

/-!
# Reading documents

A document is read into records and unions. A record is a mapping from the names of its
fields, of which unknown ones are ignored and known ones may not repeat; it may also be
given as the sequence of its fields. A union is a record whose field `kind` says what the
others are.

How much a document may nest is limited, and the limit counts what is read: the parts of
an unknown field are not looked at, however deep they are. A union is different, since
all of it has to be taken in before its kind is known. It is measured and settled as a
whole, and from there on no level is counted.
-/

namespace SchemaIR

/-- The way in which a document is read. -/
structure Reading where
  /-- How many more sequences and mappings may be opened; inside a union all of them have
  been counted already. -/
  levels : Option Nat
  /-- Whether a record may be given as the sequence of its fields. -/
  positional : Bool
  /-- Whether such a sequence may go on behind the last field. -/
  surplus : Bool
deriving DecidableEq, Repr

/-- Reads a part of a document. -/
abbrev Decoder (α : Type) := Reading → Node → Option α

namespace Reading

/-- The reading of what is inside a union. -/
def settled : Reading := ⟨none, true, false⟩

/-- The reading of JSON documents. -/
def json : Reading := ⟨some 127, true, false⟩

/-- The reading of YAML documents, in which a record is always a mapping. -/
def yaml : Reading := ⟨some 128, false, false⟩

/-- The reading of TOML documents, in which a sequence may say more than is asked. -/
def toml : Reading := ⟨none, true, true⟩

/-- The reading one level deeper, if there is a level left. -/
def deeper? (r : Reading) : Option Reading :=
  match r.levels with
  | none => some r
  | some 0 => none
  | some (n + 1) => some { r with levels := some n }

/-- The items of a sequence. A plain scalar without text counts as an empty one. -/
def items? (r : Reading) : Node → Option (Reading × List Node)
  | .seq items => r.deeper?.map (·, items)
  | .plain "" => some (r, [])
  | _ => none

/-- The entries of a mapping. A plain scalar without text counts as an empty one. -/
def entries? (r : Reading) : Node → Option (Reading × List (Node × Node))
  | .map entries => r.deeper?.map (·, entries)
  | .plain "" => some (r, [])
  | _ => none

end Reading

/-! ## Scalars -/

namespace Decoder

/-- A text. -/
def text : Decoder String := fun _ node => node.text?

/-- A truth value. -/
def bool : Decoder Bool := fun _ node =>
  match node with
  | .bool flag => some flag
  | .plain text => Plain.bool? text
  | _ => none

/-- An integer of a node, if it is one. -/
def int? : Node → Option Int
  | .int number => some number
  | .plain text => (Plain.unsigned? text.toList).map Int.ofNat
  | _ => none

/-- A natural number up to a bound. -/
def natUpTo (bound : Nat) : Decoder Nat := fun _ node =>
  match int? node with
  | some (.ofNat n) => if n ≤ bound then some n else none
  | _ => none

/-- A number of dimensions. -/
def uint32 : Decoder UInt32 := fun r node =>
  (natUpTo (UInt32.size - 1) r node).map Nat.toUInt32

/-- A signed 64-bit integer. -/
def int64 : Decoder Int64 := fun _ node =>
  match int? node with
  | some n =>
    if Number.signed64.least ≤ n ∧ n ≤ Number.signed64.greatest then some (Int64.ofInt n)
    else none
  | none => none

/-- The float nearest to a 64-bit integer. -/
def floatOfInt (n : Int) : Float :=
  let x := n.natAbs.toUInt64.toFloat
  if n < 0 then -x else x

/-- A float, for which an integer may stand. -/
def float : Decoder Float := fun _ node =>
  match node with
  | .float x => some x
  | .int n => some (floatOfInt n)
  | _ => none

/-- A part that may say that it is not there. -/
def option {α : Type} (decode : Decoder α) : Decoder (Option α) := fun r node =>
  if node.isNull then some none else (decode r node).map some

/-- A sequence. -/
def list {α : Type} (decode : Decoder α) : Decoder (List α) := fun r node =>
  match r.items? node with
  | none => none
  | some (r, items) => items.mapM (decode r)

/-- A mapping from texts. Repeated keys are kept. -/
def dictionary {α : Type} (decode : Decoder α) : Decoder (List (String × α)) := fun r node =>
  match r.entries? node with
  | none => none
  | some (r, entries) => entries.mapM fun (key, value) => do
    let key ← key.text?
    let value ← decode r value
    return (key, value)

/-- One of several words. Where records may be positional, the word may also be the only
key of a mapping to null. -/
def word {α : Type} (meaning : String → Option α) : Decoder α := fun r node =>
  match node with
  | .string text | .plain text => meaning text
  | .map [(.string key, value)] =>
    if r.positional && r.deeper?.isSome && isUnit r value then meaning key else none
  | _ => none
where
  isUnit (r : Reading) : Node → Bool
    | .null => true
    | .map [] => r.levels.isNone
    | _ => false

end Decoder

/-! ## Records -/

/-- The fields of a record that are given, and how they are to be read. -/
structure Record where
  reading : Reading
  fields : List (String × Node)

namespace Record

/-- The field that a key names: `none` for a key that cannot name a field at all,
`some none` for an unknown field. Inside a union a field may be named by its position. -/
def fieldOf? (names : List String) : Node → Option (Option String)
  | .string key | .plain key => some (if key ∈ names then some key else none)
  | .int (.ofNat n) => some names[n]?
  | _ => none

/-- Collects the known fields of a mapping. -/
def collect (names : List String) :
    List (String × Node) → List (Node × Node) → Option (List (String × Node))
  | sofar, [] => some sofar
  | sofar, (key, value) :: rest =>
    match fieldOf? names key with
    | none => none
    | some none => collect names sofar rest
    | some (some name) =>
      if (sofar.lookup name).isSome then none
      else collect names ((name, value) :: sofar) rest

/-- Reads a record with the given field names. -/
def read? (names : List String) (r : Reading) (node : Node) : Option Record :=
  match node with
  | .seq items =>
    if r.positional && (r.surplus || items.length ≤ names.length) then
      r.deeper?.map (⟨·, names.zip items⟩)
    else none
  | node =>
    match r.entries? node with
    | none => none
    | some (r, entries) => (collect names [] entries).map (⟨r, ·⟩)

/-- A field that has to be there. -/
def required {α : Type} (record : Record) (name : String) (decode : Decoder α) : Option α :=
  match record.fields.lookup name with
  | some node => decode record.reading node
  | none => none

/-- A field that has a value also when it is not there. -/
def withDefault {α : Type} (record : Record) (name : String) (default : α)
    (decode : Decoder α) : Option α :=
  match record.fields.lookup name with
  | some node => decode record.reading node
  | none => some default

end Record

/-! ## Unions -/

namespace Reading

/-- The settled form of what a union holds: everything in it is measured and given a
value. -/
def settle? (r : Reading) (node : Node) : Option Node :=
  match r.levels with
  | none => some node
  | some levels => if node.depth ≤ levels then node.settle else none

/-- Whether a key is the one that says of which kind a union is. -/
def isKind : Node → Bool
  | .string key | .plain key => key = "kind"
  | _ => false

/-- The kind of a union, given what stands for it. Inside a union the position in the list
of kinds may stand for the kind. -/
def kindOf? (r : Reading) (kinds : List String) : Node → Option String
  | .string kind | .plain kind => if kind ∈ kinds then some kind else none
  | .int (.ofNat n) => if r.levels.isNone then kinds[n]? else none
  | _ => none

/-- Splits a union into its kind and a node with its other fields, which is to be read as
`settled`. -/
def union? (r : Reading) (kinds : List String) (node : Node) : Option (String × Node) :=
  match node with
  | .map entries =>
    match entries.filter (isKind ·.1) with
    | [(_, tag)] => do
      let kind ← r.kindOf? kinds tag
      let rest ← r.settle? (.map (entries.filter (!isKind ·.1)))
      return (kind, rest)
    | _ => none
  | .seq (tag :: items) => do
    let kind ← r.kindOf? kinds tag
    let rest ← r.settle? (.seq items)
    return (kind, rest)
  | _ => none

end Reading

end SchemaIR
