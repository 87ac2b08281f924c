import SchemaIR.TypeRef

/-!
# Lowered schemas

What code generators read: a flat description in which spreads are expanded,
constants are values and documentation is normalized. Types, enumerations and
constants are each sorted by name.
-/

namespace SchemaIR

/-- A type with all of its fields in place. -/
structure TypeDef where
  name : String
  doc : Option String
  annotations : List Annotation
  fields : List Field
deriving BEq, Repr, Inhabited

/-- A member of an enumeration. The value is kept as text. -/
structure EnumMember where
  name : String
  value : String
  doc : Option String
  annotations : List Annotation
deriving BEq, Repr, Inhabited

/-- An enumeration with all of its members in place. -/
structure EnumDef where
  name : String
  doc : Option String
  annotations : List Annotation
  valueType : ValueType
  members : List EnumMember
deriving BEq, Repr, Inhabited

/-- A constant with its type and its value. -/
structure ConstantDef where
  name : String
  doc : Option String
  annotations : List Annotation
  type : TypeRef
  value : Value
deriving BEq, Repr, Inhabited

/-- A block of documentation of its own, for one declaration or for the schema. -/
structure DocDef where
  scope : Option String
  content : String
deriving BEq, Repr, Inhabited

/-- A lowered schema. -/
structure Schema where
  types : List TypeDef
  enums : List EnumDef
  constants : List ConstantDef
  docs : List DocDef
deriving BEq, Repr, Inhabited

namespace Schema

/-- The first type of the given name. -/
def findType? (schema : Schema) (name : String) : Option TypeDef :=
  schema.types.find? (·.name = name)

/-- The first enumeration of the given name. -/
def findEnum? (schema : Schema) (name : String) : Option EnumDef :=
  schema.enums.find? (·.name = name)

/-- The first constant of the given name. -/
def findConstant? (schema : Schema) (name : String) : Option ConstantDef :=
  schema.constants.find? (·.name = name)

end Schema

/-- The first field of the given name. -/
def TypeDef.field? (type : TypeDef) (name : String) : Option Field :=
  type.fields.find? (·.name = name)

/-- The names of the fields in order. -/
def TypeDef.fieldNames (type : TypeDef) : List String :=
  type.fields.map (·.name)

/-- The names of the members in order. -/
def EnumDef.memberNames (enum : EnumDef) : List String :=
  enum.members.map (·.name)

end SchemaIR
