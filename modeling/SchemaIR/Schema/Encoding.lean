import SchemaIR.Json.Basic
import SchemaIR.Schema

/-!
# Schemas as JSON

The members of each object stand in a fixed order, the kind of a union first. An absent
documentation text, argument or scope is left out; lists are written even when they are
empty.
-/

namespace SchemaIR

mutual

/-- A value, marked by its kind. -/
def Value.toJson : Value → Json
  | .string text => .object [("kind", .string "string"), ("value", .string text)]
  | .int number => .object [("kind", .string "int"), ("value", .int number.toInt)]
  | .float number => .object [("kind", .string "float"), ("value", .float number)]
  | .bool flag => .object [("kind", .string "bool"), ("value", .bool flag)]
  | .object entries =>
    .object [("kind", .string "object"), ("entries", .array (entriesToJson entries))]
  | .array items => .object [("kind", .string "array"), ("items", .array (itemsToJson items))]

/-- Entries of an object value in order. -/
def entriesToJson : List (String × Value) → List Json
  | [] => []
  | (key, value) :: rest =>
    .object [("key", .string key), ("value", value.toJson)] :: entriesToJson rest

/-- Items of an array value in order. -/
def itemsToJson : List Value → List Json
  | [] => []
  | item :: rest => item.toJson :: itemsToJson rest

end

/-- An annotation. -/
def Annotation.toJson (a : Annotation) : Json :=
  .record
    [("name", some (.string a.name)), ("argument", a.argument.map Value.toJson)]

mutual

/-- A type reference, marked by its kind. -/
def TypeRef.toJson : TypeRef → Json
  | .primitive primitive =>
    .object [("kind", .string "primitive"), ("primitive", .string primitive.name)]
  | .named name => .object [("kind", .string "type"), ("name", .string name)]
  | .enumeration name valueType =>
    .object [("kind", .string "enum"), ("name", .string name),
      ("valueType", .string valueType.name)]
  | .array item dims =>
    .object [("kind", .string "array"), ("item", item.toJson), ("dims", .int dims.toNat)]
  | .map value => .object [("kind", .string "map"), ("value", value.toJson)]
  | .object fields =>
    .object [("kind", .string "object"), ("fields", .array (fieldsToJson fields))]

/-- A field. -/
def Field.toJson : Field → Json
  | ⟨name, doc, optional, annotations, type⟩ =>
    .record
      [("name", some (.string name)), ("doc", doc.map .string),
       ("optional", some (.bool optional)),
       ("annotations", some (.array (annotations.map Annotation.toJson))),
       ("type", some type.toJson)]

/-- Fields in order. -/
def fieldsToJson : List Field → List Json
  | [] => []
  | field :: rest => field.toJson :: fieldsToJson rest

end

/-- A type. -/
def TypeDef.toJson (type : TypeDef) : Json :=
  .record
    [("name", some (.string type.name)), ("doc", type.doc.map .string),
     ("annotations", some (.array (type.annotations.map Annotation.toJson))),
     ("fields", some (.array (fieldsToJson type.fields)))]

/-- A member of an enumeration. -/
def EnumMember.toJson (member : EnumMember) : Json :=
  .record
    [("name", some (.string member.name)), ("value", some (.string member.value)),
     ("doc", member.doc.map .string),
     ("annotations", some (.array (member.annotations.map Annotation.toJson)))]

/-- An enumeration. -/
def EnumDef.toJson (enum : EnumDef) : Json :=
  .record
    [("name", some (.string enum.name)), ("doc", enum.doc.map .string),
     ("annotations", some (.array (enum.annotations.map Annotation.toJson))),
     ("valueType", some (.string enum.valueType.name)),
     ("members", some (.array (enum.members.map EnumMember.toJson)))]

/-- A constant. -/
def ConstantDef.toJson (constant : ConstantDef) : Json :=
  .record
    [("name", some (.string constant.name)), ("doc", constant.doc.map .string),
     ("annotations", some (.array (constant.annotations.map Annotation.toJson))),
     ("type", some constant.type.toJson), ("value", some constant.value.toJson)]

/-- A block of documentation. -/
def DocDef.toJson (doc : DocDef) : Json :=
  .record
    [("scope", doc.scope.map .string), ("content", some (.string doc.content))]

/-- A schema. -/
def Schema.toJson (schema : Schema) : Json :=
  .object
    [("types", .array (schema.types.map TypeDef.toJson)),
     ("enums", .array (schema.enums.map EnumDef.toJson)),
     ("constants", .array (schema.constants.map ConstantDef.toJson)),
     ("docs", .array (schema.docs.map DocDef.toJson))]

end SchemaIR
