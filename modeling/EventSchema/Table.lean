import EventSchema.Json.Parser
import EventSchema.Plan

/-!
# Schema tables

The resolved schemas of all events, by name, as a client uses them.
-/

set_option autoImplicit false

namespace EventSchema

structure Table where
  schemas : Fields := []
deriving DecidableEq, Repr

namespace Table

def ofPlan (plan : Plan) : Table := ⟨plan.schemas⟩

/-- Reads a table from a JSON text: an object of objects. -/
def parse (text : String) : Except CompileError Table :=
  match Json.parse text with
  | .error error => .error (.table (.json error))
  | .ok (.object schemas) =>
    match schemas.find? fun entry ↦ !entry.2.isObject with
    | some entry => .error (.table (.schemaNotObject entry.1))
    | none => .ok ⟨schemas⟩
  | .ok _ => .error (.table .notObject)

def get? (table : Table) (event : String) : Option Json := table.schemas.get? event

def contains (table : Table) (event : String) : Bool := table.schemas.contains event

def size (table : Table) : Nat := table.schemas.length

end Table

end EventSchema
