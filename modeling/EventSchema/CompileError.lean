import EventSchema.Resolver
import EventSchema.Schema.Violation

/-!
# Errors of compilation

What can stop the way from documents to a plan, or from a schema table to a client.
-/

set_option autoImplicit false

namespace EventSchema

/-- Why a text is not a schema table. -/
inductive TableError where
  | json (error : Json.ParseError)
  | notObject
  | schemaNotObject (event : String)
deriving DecidableEq, Repr

def TableError.message : TableError → String
  | .json error => "Invalid JSON in <schema table>: " ++ error.message
  | .notObject =>
    "Invalid field type in <schema table>: schema table must be an object keyed by event name"
  | .schemaNotObject event =>
    s!"Invalid field type in <schema table>: schema for event '{event}' must be an object"

inductive CompileError where
  | load (error : LoadError)
  | table (error : TableError)
  | resolution (error : ResolutionError)
  /-- The schema of an event is itself invalid. -/
  | schemaInvalid (event : String) (violation : Schema.Violation)
  | typeNameCollision (typeName first second : String)
deriving DecidableEq, Repr

def CompileError.message : CompileError → String
  | .load error => "Parse error: " ++ error.message
  | .table error => "Parse error: " ++ error.message
  | .resolution error => "Resolution error: " ++ error.message
  | .schemaInvalid event violation =>
    s!"Validation error: Schema validation failed: schema for '{event}': {violation.message}"
  | .typeNameCollision typeName first second =>
    s!"Events '{first}' and '{second}' both generate the type name '{typeName}'; " ++
      "rename one of them"

end EventSchema
