import SchemaIR.Json.Basic
import SchemaIR.Program

/-!
# Programs as JSON

Every field of a declaration is written, those without a value as null. Tables are
written in their own order.
-/

namespace SchemaIR

/-- A reference with the members in front of it. -/
def Reference.members (reference : Reference) : List (String × Json) :=
  [("name", .string reference.name), ("member", .ofText? reference.member)]

/-- A reference on its own. -/
def Reference.toJson (reference : Reference) : Json := .object reference.members

mutual

/-- A literal, marked by its kind. -/
def Literal.toJson : Literal → Json
  | .string text => .object [("kind", .string "string"), ("value", .string text)]
  | .int raw => .object [("kind", .string "int"), ("raw", .string raw)]
  | .float raw => .object [("kind", .string "float"), ("raw", .string raw)]
  | .bool flag => .object [("kind", .string "bool"), ("value", .bool flag)]
  | .reference target => .object (("kind", .string "reference") :: target.members)
  | .object entries =>
    .object [("kind", .string "object"), ("entries", .array (entriesJson entries))]
  | .array elements =>
    .object [("kind", .string "array"), ("elements", .array (elementsJson elements))]

/-- An entry of an object literal, marked by its kind. -/
def LiteralEntry.toJson : LiteralEntry → Json
  | .spread source => .object (("kind", .string "spread") :: source.members)
  | .field key value =>
    .object [("kind", .string "field"), ("key", .string key), ("value", value.toJson)]

/-- Literals in order. -/
def elementsJson : List Literal → List Json
  | [] => []
  | element :: rest => element.toJson :: elementsJson rest

/-- Entries in order. -/
def entriesJson : List LiteralEntry → List Json
  | [] => []
  | entry :: rest => entry.toJson :: entriesJson rest

end

/-- A literal that may be absent. -/
def Literal.optionJson : Option Literal → Json
  | some literal => literal.toJson
  | none => .null

/-- An annotation. -/
def AnnotationDecl.toJson (decl : AnnotationDecl) : Json :=
  .object [("name", .string decl.name), ("argument", Literal.optionJson decl.argument)]

mutual

/-- A base type, marked by its kind. -/
def BaseType.toJson : BaseType → Json
  | .primitive name => .object [("kind", .string "primitive"), ("name", .string name)]
  | .custom name => .object [("kind", .string "custom"), ("name", .string name)]
  | .map value => .object [("kind", .string "map"), ("value", value.toJson)]
  | .object body => .object (("kind", .string "object") :: body.members)

/-- A declared type. -/
def FieldType.toJson : FieldType → Json
  | ⟨base, dims⟩ => .object [("base", base.toJson), ("arrayDims", .int dims.toNat)]

/-- The members of an inline object. -/
def InlineObject.members : InlineObject → List (String × Json)
  | ⟨fields, spreads⟩ =>
    [("fields", .array (fieldsJson fields)), ("spreads", .array (spreads.map Reference.toJson))]

/-- A declared field. -/
def FieldDecl.toJson : FieldDecl → Json
  | ⟨name, docstring, annotations, optional, type⟩ =>
    .object
      [("name", .string name), ("docstring", .ofText? docstring),
       ("annotations", .array (annotations.map AnnotationDecl.toJson)),
       ("optional", .bool optional), ("type", type.toJson)]

/-- Fields in order. -/
def fieldsJson : List FieldDecl → List Json
  | [] => []
  | field :: rest => field.toJson :: fieldsJson rest

end

/-- A type declaration. -/
def TypeDecl.toJson (decl : TypeDecl) : Json :=
  .object
    [("name", .string decl.name), ("docstring", .ofText? decl.docstring),
     ("annotations", .array (decl.annotations.map AnnotationDecl.toJson)),
     ("fields", .array (fieldsJson decl.fields)),
     ("spreads", .array (decl.spreads.map Reference.toJson))]

/-- A member declaration. -/
def MemberDecl.toJson (decl : MemberDecl) : Json :=
  .object
    [("name", .string decl.name), ("value", .string decl.value),
     ("docstring", .ofText? decl.docstring),
     ("annotations", .array (decl.annotations.map AnnotationDecl.toJson))]

/-- An enum declaration. -/
def EnumDecl.toJson (decl : EnumDecl) : Json :=
  .object
    [("name", .string decl.name), ("docstring", .ofText? decl.docstring),
     ("annotations", .array (decl.annotations.map AnnotationDecl.toJson)),
     ("valueType", .string decl.valueType.name),
     ("members", .array (decl.members.map MemberDecl.toJson)),
     ("spreads", .array (decl.spreads.map Reference.toJson))]

/-- A constant declaration. -/
def ConstDecl.toJson (decl : ConstDecl) : Json :=
  .object
    [("name", .string decl.name), ("docstring", .ofText? decl.docstring),
     ("annotations", .array (decl.annotations.map AnnotationDecl.toJson)),
     ("explicitType", .ofText? decl.explicitType),
     ("value", Literal.optionJson decl.value)]

/-- A block of documentation. -/
def DocDecl.toJson (decl : DocDecl) : Json :=
  .object [("scope", .ofText? decl.scope), ("content", .string decl.content)]

/-- A table, as an object with one member for each key. -/
def Table.toJson {α : Type} (encode : α → Json) (table : Table α) : Json :=
  .object (table.entries.map fun (key, value) => (key, encode value))

/-- A program. -/
def Program.toJson (program : Program) : Json :=
  .object
    [("types", program.types.toJson TypeDecl.toJson),
     ("enums", program.enums.toJson EnumDecl.toJson),
     ("consts", program.consts.toJson ConstDecl.toJson),
     ("standaloneDocs", .array (program.standaloneDocs.map DocDecl.toJson))]

end SchemaIR
