import EventSchema.Mode
import EventSchema.Schema
import EventSchema.Table

/-!
# Validating clients

A client stands in front of a destination of analytics events. It checks the properties of every
captured event that its table knows; what it does with an invalid one depends on its mode. All
other requests go through unchanged.
-/

set_option autoImplicit false

namespace EventSchema

/-- A request to a destination. -/
inductive Call where
  | capture (id event : String) (properties : Fields)
  | identify (id : String) (properties : Fields)
  | alias (previous id : String)
  | featureEnabled (key id : String)
  | featureFlag (key id : String)
  | flush
  | shutdown
deriving DecidableEq, Repr

/-- What receives calls, and what it answers to questions. -/
structure Destination where
  name : String
  isEnabled : (key id : String) → Bool := fun _ _ ↦ false
  flag? : (key id : String) → Option Json := fun _ _ ↦ none

/-- What is wrong with the properties of an event. -/
inductive PropertyError where
  | missing (field : String)
  | notAllowed (field : String) (value : Json)
  | violation (violation : Schema.Violation)
deriving DecidableEq, Repr

/-- Strings are shown bare. -/
def Json.display : Json → String
  | .string text => text
  | value => value.compact

def PropertyError.message : PropertyError → String
  | missing field => s!"Missing required field: {field}"
  | notAllowed field value => s!"Invalid enum value for {field}: {value.display}"
  | violation v =>
    if v.place.segments.isEmpty then s!"Schema violation: {v.message}"
    else s!"Schema violation at {v.place.path}: {v.message}"

structure Client where
  destination : Destination
  table : Table
  mode : Mode
  /-- The schemas that properties are checked against as a whole, by event. -/
  schemas : Entries Schema := []

namespace Client

/-- Checks properties against the whole schemas of the table too, if all of them are schemas. -/
def withDeepValidation (client : Client) : Except CompileError Client := do
  let schemas ← client.table.schemas.mapM fun (event, schema) ↦
    match Schema.ofJson schema with
    | .ok schema => .ok (event, schema)
    | .error violation => .error (.schemaInvalid event violation)
  return { client with schemas }

/-! ### Checking properties -/

/-- The required names that are absent, in the order of the schema. -/
def missingErrors (schema : Json) (properties : Fields) : List PropertyError :=
  let required := ((schema.get? "required").bind Json.asArray?).getD []
  ((required.filterMap Json.asString?).filter fun name ↦ !properties.contains name).map .missing

/-- The values that a property may have, where its schema lists them. -/
def allowed? (schema : Json) (field : String) : Option (List Json) := do
  let declared ← (schema.get? "properties").bind Json.asObject?
  let property ← declared.get? field
  (property.get? "enum").bind Json.asArray?

/-- The values that are not among the listed ones, in the order of the properties. -/
def enumErrors (schema : Json) (properties : Fields) : List PropertyError :=
  (properties.filter fun (field, value) ↦
    match allowed? schema field with
    | some allowed => !allowed.any value.same
    | none => false).map fun (field, value) ↦ .notAllowed field value

def deepErrors (client : Client) (event : String) (properties : Fields) : List PropertyError :=
  match client.schemas.get? event with
  | some schema => (schema.violations (.object properties)).map .violation
  | none => []

/-- Nothing is wrong with an unknown event, and in the disabled mode with any. -/
def errors (client : Client) (event : String) (properties : Fields) : List PropertyError :=
  match client.mode, client.table.get? event with
  | .disabled, _ | _, none => []
  | _, some schema =>
    missingErrors schema properties ++ enumErrors schema properties ++
      client.deepErrors event properties

/-! ### Requests -/

inductive Request where
  | capture (id event : String) (properties : Fields)
  | identify (id : String) (properties : Fields)
  | alias (previous id : String)
  | featureEnabled (key id : String)
  | featureFlag (key id : String)
  | flush
  | shutdown
  | setDestination (destination : Destination)

/-- An event that was refused, and why. -/
structure Refusal where
  event : String
  errors : List PropertyError
deriving DecidableEq, Repr

def Refusal.message (refusal : Refusal) : String :=
  s!"Validation failed for event '{refusal.event}': " ++
    "; ".intercalate (refusal.errors.map PropertyError.message)

inductive Answer where
  | done
  | refused (refusal : Refusal)
  | enabled (value : Bool)
  | flag (value : Option Json)
  | replaced (destination : Destination)

/-- What a request leads to: the client after it, the calls that its destination received, in
order, and the answer. -/
structure Outcome where
  client : Client
  calls : List Call := []
  answer : Answer := .done

def warningEvent : String := "$schema_validation_warning"

/-- The properties of the warning that is sent ahead of an invalid event. -/
def warningProperties (event : String) (errors : List PropertyError) (properties : Fields) :
    Fields :=
  [("event", .string event), ("errors", .array (errors.map fun e ↦ .string e.message)),
    ("properties", .object properties)]

def capture (client : Client) (id event : String) (properties : Fields) : Outcome :=
  let forward : Call := .capture id event properties
  match client.errors event properties, client.mode with
  | [], _ | _, .disabled => { client, calls := [forward] }
  | errors, .strict => { client, answer := .refused ⟨event, errors⟩ }
  | errors, .warning =>
    { client
      calls := [.capture id warningEvent (warningProperties event errors properties), forward] }

def perform (client : Client) : Request → Outcome
  | .capture id event properties => client.capture id event properties
  | .identify id properties => { client, calls := [.identify id properties] }
  | .alias previous id => { client, calls := [.alias previous id] }
  | .featureEnabled key id =>
    { client
      calls := [.featureEnabled key id]
      answer := .enabled (client.destination.isEnabled key id) }
  | .featureFlag key id =>
    { client
      calls := [.featureFlag key id]
      answer := .flag (client.destination.flag? key id) }
  | .flush => { client, calls := [.flush] }
  | .shutdown => { client, calls := [.shutdown] }
  | .setDestination destination =>
    { client := { client with destination }
      answer := .replaced client.destination }

/-- A call and the name of the destination that received it. -/
structure Delivery where
  destination : String
  call : Call
deriving DecidableEq, Repr

/-- The calls of a sequence of requests, each with the destination of its moment. -/
def deliveries (client : Client) : List Request → List Delivery
  | [] => []
  | request :: rest =>
    let outcome := client.perform request
    outcome.calls.map (Delivery.mk client.destination.name) ++ outcome.client.deliveries rest

end Client

end EventSchema
