import SchemaIR.Document.Reading
import SchemaIR.Error
import SchemaIR.Json.Parser
import SchemaIR.Schema

/-!
# Schemas from documents

A schema is a record of lists. What an encoder may leave out may be missing: documentation,
annotations, whether a field is optional, arguments and scopes.
-/

namespace SchemaIR

mutual

/-- Reads a value. -/
def Value.decode : Nat → Decoder Value
  | 0, _, _ => none
  | fuel + 1, r, node => do
    let (kind, node) ← r.union? ["string", "int", "float", "bool", "object", "array"] node
    match kind with
    | "string" =>
      let record ← Record.read? ["value"] .settled node
      return .string (← record.required "value" .text)
    | "int" =>
      let record ← Record.read? ["value"] .settled node
      return .int (← record.required "value" .int64)
    | "float" =>
      let record ← Record.read? ["value"] .settled node
      return .float (← record.required "value" .float)
    | "bool" =>
      let record ← Record.read? ["value"] .settled node
      return .bool (← record.required "value" .bool)
    | "object" =>
      let record ← Record.read? ["entries"] .settled node
      return .object (← record.required "entries" (.list (Value.decodeEntry fuel)))
    | "array" =>
      let record ← Record.read? ["items"] .settled node
      return .array (← record.required "items" (.list (Value.decode fuel)))
    | _ => none

/-- Reads an entry of an object value. -/
def Value.decodeEntry : Nat → Decoder (String × Value)
  | 0, _, _ => none
  | fuel + 1, r, node => do
    let record ← Record.read? ["key", "value"] r node
    let key ← record.required "key" .text
    let value ← record.required "value" (Value.decode fuel)
    return (key, value)

end

/-- Reads a value of any depth. -/
def Value.decodeAny : Decoder Value := fun r node => Value.decode node.depth r node

/-- Reads an annotation. -/
def Annotation.decode : Decoder Annotation := fun r node => do
  let record ← Record.read? ["name", "argument"] r node
  let name ← record.required "name" .text
  let argument ← record.withDefault "argument" none (.option Value.decodeAny)
  return ⟨name, argument⟩

mutual

/-- Reads a type reference. -/
def TypeRef.decode : Nat → Decoder TypeRef
  | 0, _, _ => none
  | fuel + 1, r, node => do
    let (kind, node) ← r.union? ["primitive", "type", "enum", "array", "map", "object"] node
    match kind with
    | "primitive" =>
      let record ← Record.read? ["primitive"] .settled node
      return .primitive (← record.required "primitive" (.word Primitive.ofName?))
    | "type" =>
      let record ← Record.read? ["name"] .settled node
      return .named (← record.required "name" .text)
    | "enum" =>
      let record ← Record.read? ["name", "valueType"] .settled node
      let name ← record.required "name" .text
      let valueType ← record.required "valueType" (.word ValueType.ofName?)
      return .enumeration name valueType
    | "array" =>
      let record ← Record.read? ["item", "dims"] .settled node
      let item ← record.required "item" (TypeRef.decode fuel)
      let dims ← record.required "dims" .uint32
      return .array item dims
    | "map" =>
      let record ← Record.read? ["value"] .settled node
      return .map (← record.required "value" (TypeRef.decode fuel))
    | "object" =>
      let record ← Record.read? ["fields"] .settled node
      return .object (← record.required "fields" (.list (Field.decode fuel)))
    | _ => none

/-- Reads a field. -/
def Field.decode : Nat → Decoder Field
  | 0, _, _ => none
  | fuel + 1, r, node => do
    let record ← Record.read? ["name", "doc", "optional", "annotations", "type"] r node
    let name ← record.required "name" .text
    let doc ← record.withDefault "doc" none (.option .text)
    let optional ← record.withDefault "optional" false .bool
    let annotations ← record.withDefault "annotations" [] (.list Annotation.decode)
    let type ← record.required "type" (TypeRef.decode fuel)
    return ⟨name, doc, optional, annotations, type⟩

end

/-- Reads a type reference of any depth. -/
def TypeRef.decodeAny : Decoder TypeRef := fun r node => TypeRef.decode node.depth r node

/-- Reads a field of any depth. -/
def Field.decodeAny : Decoder Field := fun r node => Field.decode node.depth r node

/-- Reads a type. -/
def TypeDef.decode : Decoder TypeDef := fun r node => do
  let record ← Record.read? ["name", "doc", "annotations", "fields"] r node
  let name ← record.required "name" .text
  let doc ← record.withDefault "doc" none (.option .text)
  let annotations ← record.withDefault "annotations" [] (.list Annotation.decode)
  let fields ← record.required "fields" (.list Field.decodeAny)
  return ⟨name, doc, annotations, fields⟩

/-- Reads a member of an enumeration. -/
def EnumMember.decode : Decoder EnumMember := fun r node => do
  let record ← Record.read? ["name", "value", "doc", "annotations"] r node
  let name ← record.required "name" .text
  let value ← record.required "value" .text
  let doc ← record.withDefault "doc" none (.option .text)
  let annotations ← record.withDefault "annotations" [] (.list Annotation.decode)
  return ⟨name, value, doc, annotations⟩

/-- Reads an enumeration. -/
def EnumDef.decode : Decoder EnumDef := fun r node => do
  let record ← Record.read? ["name", "doc", "annotations", "valueType", "members"] r node
  let name ← record.required "name" .text
  let doc ← record.withDefault "doc" none (.option .text)
  let annotations ← record.withDefault "annotations" [] (.list Annotation.decode)
  let valueType ← record.required "valueType" (.word ValueType.ofName?)
  let members ← record.required "members" (.list EnumMember.decode)
  return ⟨name, doc, annotations, valueType, members⟩

/-- Reads a constant. -/
def ConstantDef.decode : Decoder ConstantDef := fun r node => do
  let record ← Record.read? ["name", "doc", "annotations", "type", "value"] r node
  let name ← record.required "name" .text
  let doc ← record.withDefault "doc" none (.option .text)
  let annotations ← record.withDefault "annotations" [] (.list Annotation.decode)
  let type ← record.required "type" TypeRef.decodeAny
  let value ← record.required "value" Value.decodeAny
  return ⟨name, doc, annotations, type, value⟩

/-- Reads a block of documentation. -/
def DocDef.decode : Decoder DocDef := fun r node => do
  let record ← Record.read? ["scope", "content"] r node
  let scope ← record.withDefault "scope" none (.option .text)
  let content ← record.required "content" .text
  return ⟨scope, content⟩

/-- Reads a schema. -/
def Schema.decode : Decoder Schema := fun r node => do
  let record ← Record.read? ["types", "enums", "constants", "docs"] r node
  let types ← record.required "types" (.list TypeDef.decode)
  let enums ← record.required "enums" (.list EnumDef.decode)
  let constants ← record.required "constants" (.list ConstantDef.decode)
  let docs ← record.required "docs" (.list DocDef.decode)
  return ⟨types, enums, constants, docs⟩

/-- Reads the JSON text of a schema. -/
def Schema.ofJson (text : String) : Except Cause Schema :=
  match (Json.parse? text).bind (Schema.decode .json) with
  | some schema => .ok schema
  | none => .error .json

end SchemaIR
