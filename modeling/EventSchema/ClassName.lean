import EventSchema.Plan
import EventSchema.Python.Literal
import EventSchema.TypeScript.Literal

/-!
# Class names

The name of the wrapper class must be usable in every target language, and must not be a name that
the artifact has anyway.
-/

set_option autoImplicit false

namespace EventSchema.ClassName

inductive Problem where
  | notIdentifier
  | reserved
  | taken
  /-- The name is that of the type of an event. -/
  | takenByEvent (event : String)
deriving DecidableEq, Repr

def Problem.message (problem : Problem) (name : String) : String :=
  s!"Invalid class name '{name}'. " ++
    match problem with
    | .notIdentifier => "Use letters, digits and underscores, not starting with a digit"
    | .reserved => "It is a reserved word"
    | .taken => "It clashes with a name the generated code defines"
    | .takenByEvent event => s!"It clashes with the type generated for event '{event}'"

/-- The other names that artifacts define or import. -/
def artifactNames : List String := [
  "Any", "Dict", "Enum", "EventName", "EventPropertiesMap", "List", "Literal", "Optional",
  "PostHogClient", "SCHEMAS", "TypedDict", "Union", "ValidationMode", "hogtyped", "json",
  "jsonschema", "overload", "posthog", "warnings"]

def isIdentifier (name : String) : Bool :=
  match name.toList with
  | [] => false
  | first :: rest => Python.isIdentifierStart first && rest.all Python.isIdentifierChar

def check (name : String) : Except Problem Unit :=
  if !isIdentifier name then .error .notIdentifier
  else if Python.keywords.contains name || TypeScript.reservedWords.contains name then
    .error .reserved
  else if artifactNames.contains name then .error .taken
  else .ok ()

/-- Refuses a name that the type of a planned event has. -/
def checkAgainst (name : String) (events : List PlannedEvent) : Except Problem Unit :=
  match events.find? (·.typeName = name) with
  | some event => .error (.takenByEvent event.name)
  | none => .ok ()

end EventSchema.ClassName
