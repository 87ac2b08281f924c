import SchemaIR.Json.Basic

/-!
# Shapes of JSON documents

A shape describes a set of JSON values in the terms of JSON Schema: types, constants,
records with named members, lists, named definitions and unions of which exactly one
alternative applies. A shape is published as a JSON Schema document, in which the
members of every object are sorted.
-/

namespace SchemaIR.Json

/-- A set of JSON values. -/
inductive Shape where
  | string
  | boolean
  | number
  /-- An integer that is not less than the bound, if there is one. -/
  | integer (minimum : Option Int)
  /-- Exactly this text. -/
  | const (text : String)
  /-- One of these texts. -/
  | oneWord (texts : List String)
  | list (items : Shape)
  /-- An object with no other members than these, of which some are required. -/
  | record (properties : List (String × Shape)) (required : List String)
  /-- The definition of this name. -/
  | ref (name : String)
  /-- Exactly one of these. -/
  | oneOf (alternatives : List Shape)
deriving Repr, Inhabited

namespace Shape

mutual

/-- A shape as a JSON Schema. -/
def toJson : Shape → Json
  | .string => .object [("type", .string "string")]
  | .boolean => .object [("type", .string "boolean")]
  | .number => .object [("type", .string "number")]
  | .integer none => .object [("type", .string "integer")]
  | .integer (some minimum) =>
    .object [("minimum", .int minimum), ("type", .string "integer")]
  | .const text => .object [("const", .string text)]
  | .oneWord texts =>
    .object [("enum", .array (texts.map .string)), ("type", .string "string")]
  | .list items => .object [("items", items.toJson), ("type", .string "array")]
  | .record properties required =>
    .object
      [("additionalProperties", .bool false),
       ("properties", .object (propertiesJson properties)),
       ("required", .array (required.map .string)),
       ("type", .string "object")]
  | .ref name => .object [("$ref", .string ("#/$defs/" ++ name))]
  | .oneOf alternatives => .object [("oneOf", .array (alternativesJson alternatives))]

/-- The shapes of the members of a record, in the order given. -/
def propertiesJson : List (String × Shape) → List (String × Json)
  | [] => []
  | (name, shape) :: rest => (name, shape.toJson) :: propertiesJson rest

/-- Alternatives in order. -/
def alternativesJson : List Shape → List Json
  | [] => []
  | shape :: rest => shape.toJson :: alternativesJson rest

end

end Shape

end SchemaIR.Json
