import EventSchema.EventSet
import EventSchema.Mode
import EventSchema.TypeExpr

/-!
# Generation plans

All that a renderer needs to know, with no target syntax in it. A plan exists only if no two events
share a type name.
-/

set_option autoImplicit false

namespace EventSchema

/-- What a plan takes from the caller and not from the schemas. -/
structure PlanOptions where
  className : String := "PostHog"
  mode : Mode := .warning
  generatedAt : String := ""
  generatorVersion : String := "0.1.0"
deriving DecidableEq, Repr

/-- An event as the renderers see it. -/
structure PlannedEvent where
  name : String
  typeName : String
  fields : List Field
  /-- The resolved schema, embedded as it is. -/
  schema : Json
deriving Repr, Inhabited

structure Plan where
  options : PlanOptions
  /-- By descending name. -/
  events : List PlannedEvent
deriving Repr

namespace PlannedEvent

def ofEvent (event : Event) : PlannedEvent where
  name := event.name
  typeName := event.typeName
  fields := event.properties.map fun (name, fragment) ↦
    Field.ofProperty event.required name fragment
  schema := event.schema.toJson

def hasOptional (event : PlannedEvent) : Bool := event.fields.any fun field ↦ !field.required

end PlannedEvent

namespace Plan

/-- The first event, in order, whose type name an earlier one has, with the last such one. -/
def collision? : List Event → List Event → Option (Event × Event)
  | _, [] => none
  | seen, event :: rest =>
    match seen.find? (·.typeName = event.typeName) with
    | some first => some (first, event)
    | none => collision? (event :: seen) rest

def ofEventSet (set : EventSet) (options : PlanOptions) : Except CompileError Plan :=
  match collision? [] set.events with
  | some (first, second) =>
    .error (.typeNameCollision second.typeName first.name second.name)
  | none => .ok { options, events := set.events.map PlannedEvent.ofEvent }

def eventNames (plan : Plan) : List String := plan.events.map (·.name)

/-- The schemas by event name, in order. -/
def schemas (plan : Plan) : Fields :=
  Entries.ofList (plan.events.map fun event ↦ (event.name, event.schema))

end Plan

end EventSchema
