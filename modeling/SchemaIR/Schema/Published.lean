import SchemaIR.Json.Printer
import SchemaIR.Json.Shape
import SchemaIR.Primitive

/-!
# The published shape of schemas

A JSON Schema is published beside the schemas themselves, so that generators written
elsewhere can check the documents they read. The members of every record are listed in
sorted order.
-/

namespace SchemaIR.Schema.Published

open SchemaIR.Json

/-- Where the JSON Schema is published. -/
def id : String :=
  "https://raw.githubusercontent.com/varavelio/vdl/main/toolchain/internal/core/ir/ir.schema.json"

/-- The dialect of JSON Schema. -/
def dialect : String := "https://json-schema.org/draft/2020-12/schema"

/-- Annotations, which every declaration may carry. -/
def annotations : String × Shape := ("annotations", .list (.ref "Annotation"))

/-- Documentation, which every declaration may carry. -/
def doc : String × Shape := ("doc", .string)

/-- The name of a declaration. -/
def name : String × Shape := ("name", .string)

/-- The mark of an alternative of a union. -/
def kind (text : String) : String × Shape := ("kind", .const text)

/-- The root of a document. -/
def root : Shape :=
  .record
    [("constants", .list (.ref "ConstantDef")), ("docs", .list (.ref "DocDef")),
     ("enums", .list (.ref "EnumDef")), ("types", .list (.ref "TypeDef"))]
    ["types", "enums", "constants", "docs"]

/-- Type references. -/
def typeRef : Shape :=
  .oneOf
    [.record [kind "primitive", ("primitive", .ref "PrimitiveType")] ["kind", "primitive"],
     .record [kind "type", name] ["kind", "name"],
     .record [kind "enum", name, ("valueType", .ref "EnumValueType")]
       ["kind", "name", "valueType"],
     .record [("dims", .integer (some 1)), ("item", .ref "TypeRef"), kind "array"]
       ["kind", "item", "dims"],
     .record [kind "map", ("value", .ref "TypeRef")] ["kind", "value"],
     .record [("fields", .list (.ref "Field")), kind "object"] ["kind", "fields"]]

/-- Values. -/
def value : Shape :=
  .oneOf
    [.record [kind "string", ("value", .string)] ["kind", "value"],
     .record [kind "int", ("value", .integer none)] ["kind", "value"],
     .record [kind "float", ("value", .number)] ["kind", "value"],
     .record [kind "bool", ("value", .boolean)] ["kind", "value"],
     .record [("entries", .list (.ref "ObjectEntry")), kind "object"] ["kind", "entries"],
     .record [("items", .list (.ref "Value")), kind "array"] ["kind", "items"]]

/-- All definitions, sorted by name. -/
def definitions : List (String × Shape) :=
  [("Annotation", .record [("argument", .ref "Value"), name] ["name"]),
   ("ConstantDef",
     .record [annotations, doc, name, ("type", .ref "TypeRef"), ("value", .ref "Value")]
       ["name", "type", "value"]),
   ("DocDef", .record [("content", .string), ("scope", .string)] ["content"]),
   ("EnumDef",
     .record
       [annotations, doc, ("members", .list (.ref "EnumMember")), name,
        ("valueType", .ref "EnumValueType")]
       ["name", "valueType", "members"]),
   ("EnumMember", .record [annotations, doc, name, ("value", .string)] ["name", "value"]),
   ("EnumValueType", .oneWord (ValueType.all.map ValueType.name)),
   ("Field",
     .record [annotations, doc, name, ("optional", .boolean), ("type", .ref "TypeRef")]
       ["name", "type"]),
   ("IrSchema", root),
   ("ObjectEntry", .record [("key", .string), ("value", .ref "Value")] ["key", "value"]),
   ("PrimitiveType", .oneWord (Primitive.all.map Primitive.name)),
   ("TypeDef",
     .record [annotations, doc, ("fields", .list (.ref "Field")), name] ["name", "fields"]),
   ("TypeRef", typeRef),
   ("Value", value)]

/-- A definition as it is published. -/
def definition? (name : String) : Option Json :=
  (definitions.lookup name).map Shape.toJson

/-- The JSON Schema of schema documents. -/
def document : Json :=
  .object
    [("$defs", .object (Shape.propertiesJson definitions)),
     ("$id", .string id),
     ("$ref", .string "#/$defs/IrSchema"),
     ("$schema", .string dialect),
     ("description", .string "JSON Schema for the VDL Intermediate Representation"),
     ("title", .string "VDL IR Schema")]

/-- The text of the JSON Schema. -/
def text : String := document.render .indented

end SchemaIR.Schema.Published
