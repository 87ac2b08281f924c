import SchemaIR.Json.Printer
import SchemaIR.Schema.Encoding
import SchemaIR.Settings

/-!
# Schema texts

The document that is written for code generators.
-/

namespace SchemaIR.Schema

/-- The layout that settings ask for. -/
def layout (settings : EmitSettings) : Json.Layout :=
  if settings.minify then .compact else .indented

/-- The JSON text of a schema. -/
def render (schema : Schema) (settings : EmitSettings) : String :=
  schema.toJson.render (layout settings)

end SchemaIR.Schema
