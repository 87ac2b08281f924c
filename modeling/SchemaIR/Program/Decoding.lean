import SchemaIR.Document.Reading
import SchemaIR.Program

/-!
# Programs from documents

Declarations are records, and literals, their entries and base types are unions. Unions
nest, so their readers take the number of unions that may be opened inside one another;
the depth of the document is always enough.
-/

namespace SchemaIR

/-- Reads a reference. -/
def Reference.decode : Decoder Reference := fun r node => do
  let record ← Record.read? ["name", "member"] r node
  let name ← record.required "name" .text
  let member ← record.withDefault "member" none (.option .text)
  return ⟨name, member⟩

mutual

/-- Reads a literal. -/
def Literal.decode : Nat → Decoder Literal
  | 0, _, _ => none
  | fuel + 1, r, node => do
    let (kind, node) ←
      r.union? ["string", "int", "float", "bool", "reference", "object", "array"] node
    match kind with
    | "string" =>
      let record ← Record.read? ["value"] .settled node
      return .string (← record.required "value" .text)
    | "int" =>
      let record ← Record.read? ["raw"] .settled node
      return .int (← record.required "raw" .text)
    | "float" =>
      let record ← Record.read? ["raw"] .settled node
      return .float (← record.required "raw" .text)
    | "bool" =>
      let record ← Record.read? ["value"] .settled node
      return .bool (← record.required "value" .bool)
    | "reference" => return .reference (← Reference.decode .settled node)
    | "object" =>
      let record ← Record.read? ["entries"] .settled node
      return .object (← record.required "entries" (.list (LiteralEntry.decode fuel)))
    | "array" =>
      let record ← Record.read? ["elements"] .settled node
      return .array (← record.required "elements" (.list (Literal.decode fuel)))
    | _ => none

/-- Reads an entry of an object literal. -/
def LiteralEntry.decode : Nat → Decoder LiteralEntry
  | 0, _, _ => none
  | fuel + 1, r, node => do
    let (kind, node) ← r.union? ["spread", "field"] node
    match kind with
    | "spread" => return .spread (← Reference.decode .settled node)
    | "field" =>
      let record ← Record.read? ["key", "value"] .settled node
      let key ← record.required "key" .text
      let value ← record.required "value" (Literal.decode fuel)
      return .field key value
    | _ => none

end

/-- Reads a literal of any depth. -/
def Literal.decodeAny : Decoder Literal := fun r node => Literal.decode node.depth r node

/-- Reads an annotation. -/
def AnnotationDecl.decode : Decoder AnnotationDecl := fun r node => do
  let record ← Record.read? ["name", "argument"] r node
  let name ← record.required "name" .text
  let argument ← record.withDefault "argument" none (.option Literal.decodeAny)
  return ⟨name, argument⟩

mutual

/-- Reads a base type. -/
def BaseType.decode : Nat → Decoder BaseType
  | 0, _, _ => none
  | fuel + 1, r, node => do
    let (kind, node) ← r.union? ["primitive", "custom", "map", "object"] node
    match kind with
    | "primitive" =>
      let record ← Record.read? ["name"] .settled node
      return .primitive (← record.required "name" .text)
    | "custom" =>
      let record ← Record.read? ["name"] .settled node
      return .custom (← record.required "name" .text)
    | "map" =>
      let record ← Record.read? ["value"] .settled node
      return .map (← record.required "value" (FieldType.decode fuel))
    | "object" =>
      let record ← Record.read? ["fields", "spreads"] .settled node
      let fields ← record.withDefault "fields" [] (.list (FieldDecl.decode fuel))
      let spreads ← record.withDefault "spreads" [] (.list Reference.decode)
      return .object ⟨fields, spreads⟩
    | _ => none

/-- Reads a declared type. -/
def FieldType.decode : Nat → Decoder FieldType
  | 0, _, _ => none
  | fuel + 1, r, node => do
    let record ← Record.read? ["base", "arrayDims"] r node
    let base ← record.required "base" (BaseType.decode fuel)
    let dims ← record.withDefault "arrayDims" 0 .uint32
    return ⟨base, dims⟩

/-- Reads a declared field. -/
def FieldDecl.decode : Nat → Decoder FieldDecl
  | 0, _, _ => none
  | fuel + 1, r, node => do
    let record ←
      Record.read? ["name", "docstring", "annotations", "optional", "type"] r node
    let name ← record.required "name" .text
    let docstring ← record.withDefault "docstring" none (.option .text)
    let annotations ← record.withDefault "annotations" [] (.list AnnotationDecl.decode)
    let optional ← record.withDefault "optional" false .bool
    let type ← record.required "type" (FieldType.decode fuel)
    return ⟨name, docstring, annotations, optional, type⟩

end

/-- Reads a declared field of any depth. -/
def FieldDecl.decodeAny : Decoder FieldDecl := fun r node => FieldDecl.decode node.depth r node

/-- Reads a type declaration. -/
def TypeDecl.decode : Decoder TypeDecl := fun r node => do
  let record ← Record.read? ["name", "docstring", "annotations", "fields", "spreads"] r node
  let name ← record.required "name" .text
  let docstring ← record.withDefault "docstring" none (.option .text)
  let annotations ← record.withDefault "annotations" [] (.list AnnotationDecl.decode)
  let fields ← record.withDefault "fields" [] (.list FieldDecl.decodeAny)
  let spreads ← record.withDefault "spreads" [] (.list Reference.decode)
  return ⟨name, docstring, annotations, fields, spreads⟩

/-- Reads a member declaration. -/
def MemberDecl.decode : Decoder MemberDecl := fun r node => do
  let record ← Record.read? ["name", "value", "docstring", "annotations"] r node
  let name ← record.required "name" .text
  let value ← record.required "value" .text
  let docstring ← record.withDefault "docstring" none (.option .text)
  let annotations ← record.withDefault "annotations" [] (.list AnnotationDecl.decode)
  return ⟨name, value, docstring, annotations⟩

/-- Reads an enum declaration. -/
def EnumDecl.decode : Decoder EnumDecl := fun r node => do
  let record ←
    Record.read? ["name", "docstring", "annotations", "valueType", "members", "spreads"] r node
  let name ← record.required "name" .text
  let docstring ← record.withDefault "docstring" none (.option .text)
  let annotations ← record.withDefault "annotations" [] (.list AnnotationDecl.decode)
  let valueType ← record.withDefault "valueType" .string (.word ValueType.ofName?)
  let members ← record.withDefault "members" [] (.list MemberDecl.decode)
  let spreads ← record.withDefault "spreads" [] (.list Reference.decode)
  return ⟨name, docstring, annotations, valueType, members, spreads⟩

/-- Reads a constant declaration. -/
def ConstDecl.decode : Decoder ConstDecl := fun r node => do
  let record ←
    Record.read? ["name", "docstring", "annotations", "explicitType", "value"] r node
  let name ← record.required "name" .text
  let docstring ← record.withDefault "docstring" none (.option .text)
  let annotations ← record.withDefault "annotations" [] (.list AnnotationDecl.decode)
  let explicitType ← record.withDefault "explicitType" none (.option .text)
  let value ← record.withDefault "value" none (.option Literal.decodeAny)
  return ⟨name, docstring, annotations, explicitType, value⟩

/-- Reads a block of documentation. -/
def DocDecl.decode : Decoder DocDecl := fun r node => do
  let record ← Record.read? ["scope", "content"] r node
  let scope ← record.withDefault "scope" none (.option .text)
  let content ← record.required "content" .text
  return ⟨scope, content⟩

/-- Reads a table. Of declarations under one key the last counts. -/
def Table.decode {α : Type} (decode : Decoder α) : Decoder (Table α) := fun r node =>
  (Decoder.dictionary decode r node).map Table.ofList

/-- Reads a program. -/
def Program.decode : Decoder Program := fun r node => do
  let record ← Record.read? ["types", "enums", "consts", "standaloneDocs"] r node
  let types ← record.withDefault "types" .empty (Table.decode TypeDecl.decode)
  let enums ← record.withDefault "enums" .empty (Table.decode EnumDecl.decode)
  let consts ← record.withDefault "consts" .empty (Table.decode ConstDecl.decode)
  let docs ← record.withDefault "standaloneDocs" [] (.list DocDecl.decode)
  return ⟨types, enums, consts, docs⟩

end SchemaIR
