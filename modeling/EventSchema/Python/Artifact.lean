import EventSchema.Plan
import EventSchema.Python.Literal

/-!
# The Python artifact

A module with a typed dictionary for every event, the schema table, and a wrapper class around an
analytics client that checks events before it sends them. It is a list of lines.
-/

set_option autoImplicit false

namespace EventSchema.Python

/-- The type hint of a type. -/
def typeHint : TypeExpr → String
  | .any => "Any"
  | .string => "str"
  | .float => "float"
  | .integer => "int"
  | .boolean => "bool"
  | .literal values =>
    "Literal[" ++ ", ".intercalate (values.map fun value ↦ literal value 0) ++ "]"
  | .list item => "List[" ++ typeHint item ++ "]"
  | .map => "Dict[str, Any]"
  | .optional type => "Optional[" ++ typeHint type ++ "]"

def header (options : PlanOptions) : List String := [
  "# Auto-generated PostHog wrapper with embedded schemas",
  "# Generated at: " ++ options.generatedAt,
  "# Generator: hogtyped " ++ options.generatorVersion,
  "# DO NOT EDIT - This file is auto-generated",
  "",
  "from typing import Any, Dict, List, Optional, Union, Literal, TypedDict, overload",
  "from enum import Enum",
  "import posthog",
  "import json",
  "import warnings",
  "",
  "try:",
  "    import jsonschema",
  "except ImportError:",
  "    jsonschema = None",
  "",
  "",
  "class ValidationMode(Enum):",
  "    STRICT = \"strict\"",
  "    WARNING = \"warning\"",
  "    DISABLED = \"disabled\"",
  "",
  "",
  "# ============ Event Types ============"]

/-! ### Event types -/

/-- Class syntax takes only keys that are identifiers. -/
def hasClassSyntax (event : PlannedEvent) : Bool :=
  event.fields.all fun field ↦ isIdentifier field.name

def totality (event : PlannedEvent) : String := if event.hasOptional then ", total=False" else ""

def functionalField (field : Field) : String :=
  "    " ++ quote field.name ++ ": " ++ typeHint field.type ++ ","

def functionalType (event : PlannedEvent) : List String :=
  [event.typeName ++ " = TypedDict(\"" ++ event.typeName ++ "\", \x7b"] ++
    event.fields.map functionalField ++ ["\x7d" ++ totality event ++ ")"]

def classField (field : Field) : List String :=
  (match field.description with
    | some description => ["    \"\"\"" ++ docstring description ++ "\"\"\""]
    | none => []) ++
  ["    " ++ field.name ++ ": " ++ typeHint field.type]

def classType (event : PlannedEvent) : List String :=
  ["class " ++ event.typeName ++ "(TypedDict" ++ totality event ++ "):"] ++
    (if event.fields.isEmpty then ["    pass"] else event.fields.flatMap classField)

def eventType (event : PlannedEvent) : List String :=
  if hasClassSyntax event then classType event else functionalType event

/-! ### Names and schemas -/

def eventNameType (events : List PlannedEvent) : String :=
  if events.isEmpty then "str"
  else "Literal[" ++ ", ".intercalate (events.map fun event ↦ quote event.name) ++ "]"

def schemaEntry (event : PlannedEvent) : String :=
  "    " ++ quote event.name ++ ": " ++ literal event.schema 1 ++ ","

def schemaTable (events : List PlannedEvent) : List String :=
  ["# ============ Embedded Schemas ============", "", "SCHEMAS = \x7b"] ++
    events.map schemaEntry ++ ["\x7d"]

/-! ### The wrapper -/

/-- The class up to its overloads. -/
def wrapperStart (className : String) (mode : Mode) : List String := [
  "# ============ Type-Safe Wrapper ============",
  "",
  "class " ++ className ++ ":",
  "    \"\"\"",
  "    Auto-generated PostHog wrapper with embedded schemas and type hints.",
  "    \"\"\"",
  "",
  "    def __init__(",
  "        self,",
  "        api_key: Optional[str] = None,",
  "        host: str = \"https://app.posthog.com\",",
  "        validation_mode: ValidationMode = ValidationMode." ++ mode.constant ++ ",",
  "        posthog_instance: Optional[Any] = None,",
  "        deep_validation: bool = False,",
  "        **kwargs",
  "    ):",
  "        self.validation_mode = validation_mode",
  "        self.deep_validation = deep_validation and jsonschema is not None",
  "        self.schemas = SCHEMAS",
  "",
  "        if posthog_instance is not None:",
  "            self.posthog = posthog_instance",
  "        else:",
  "            if api_key:",
  "                posthog.project_api_key = api_key",
  "                posthog.host = host",
  "            self.posthog = posthog",
  "",
  "    def set_instance(self, posthog_instance: Any) -> None:",
  "        \"\"\"Send events through an existing PostHog client.\"\"\"",
  "        self.posthog = posthog_instance",
  "",
  "    def _validate(self, event_name: str, properties: Dict[str, Any]) -> Optional[List[str]]:",
  "        \"\"\"Validate event properties against the embedded schema.\"\"\"",
  "        if self.validation_mode == ValidationMode.DISABLED:",
  "            return None",
  "",
  "        schema = self.schemas.get(event_name)",
  "        if not schema:",
  "            return None",
  "",
  "        errors = []",
  "",
  "        for field in schema.get(\"required\", []):",
  "            if field not in properties:",
  "                errors.append(f\"Missing required field: \x7bfield\x7d\")",
  "",
  "        declared = schema.get(\"properties\", \x7b\x7d)",
  "        for field, value in properties.items():",
  "            prop_schema = declared.get(field)",
  "            if isinstance(prop_schema, dict) and \"enum\" in prop_schema:",
  "                if value not in prop_schema[\"enum\"]:",
  "                    errors.append(f\"Invalid enum value for \x7bfield\x7d: \x7bvalue\x7d\")",
  "",
  "        if self.deep_validation:",
  "            for error in jsonschema.Draft7Validator(schema).iter_errors(properties):",
  "                path = \"/\" + \"/\".join(str(part) for part in error.path)",
  "                errors.append(f\"Schema violation at \x7bpath\x7d: \x7berror.message\x7d\")",
  "",
  "        return errors if errors else None"]

def overload (event : PlannedEvent) : List String := [
  "",
  "    @overload",
  "    def capture(",
  "        self,",
  "        distinct_id: str,",
  "        event: Literal[" ++ quote event.name ++ "],",
  "        properties: " ++ event.typeName ++ ",",
  "        **kwargs",
  "    ) -> None: ..."]

/-- The class after its overloads, and its default instance. -/
def wrapperEnd (className : String) : List String := [
  "",
  "    def capture(",
  "        self,",
  "        distinct_id: str,",
  "        event: str,",
  "        properties: Optional[Dict[str, Any]] = None,",
  "        **kwargs",
  "    ) -> None:",
  "        \"\"\"",
  "        Capture an event with type-safe properties.",
  "        \"\"\"",
  "        properties = properties or \x7b\x7d",
  "",
  "        errors = self._validate(event, properties)",
  "",
  "        if errors:",
  "            error_msg = f\"Validation failed for event '\x7bevent\x7d': \x7b'; " ++
    "'.join(errors)\x7d\"",
  "",
  "            if self.validation_mode == ValidationMode.STRICT:",
  "                raise ValueError(error_msg)",
  "",
  "            warnings.warn(error_msg)",
  "            self.posthog.capture(",
  "                distinct_id=distinct_id,",
  "                event=\"$schema_validation_warning\",",
  "                properties=\x7b",
  "                    \"event\": event,",
  "                    \"errors\": errors,",
  "                    \"properties\": properties,",
  "                \x7d,",
  "            )",
  "",
  "        self.posthog.capture(",
  "            distinct_id=distinct_id,",
  "            event=event,",
  "            properties=properties,",
  "            **kwargs",
  "        )",
  "",
  "    def identify(self, distinct_id: str, properties: Optional[Dict[str, Any]] = None, " ++
    "**kwargs) -> None:",
  "        \"\"\"Identify a user.\"\"\"",
  "        self.posthog.identify(distinct_id=distinct_id, properties=properties, **kwargs)",
  "",
  "    def alias(self, previous_id: str, distinct_id: str, **kwargs) -> None:",
  "        \"\"\"Create an alias for a user.\"\"\"",
  "        self.posthog.alias(previous_id=previous_id, distinct_id=distinct_id, **kwargs)",
  "",
  "    def feature_enabled(self, key: str, distinct_id: str, **kwargs) -> bool:",
  "        \"\"\"Check if a feature flag is enabled.\"\"\"",
  "        return self.posthog.feature_enabled(key=key, distinct_id=distinct_id, **kwargs)",
  "",
  "    def get_feature_flag(self, key: str, distinct_id: str, **kwargs) -> Any:",
  "        \"\"\"Get feature flag value.\"\"\"",
  "        return self.posthog.get_feature_flag(key=key, distinct_id=distinct_id, **kwargs)",
  "",
  "    def flush(self) -> None:",
  "        \"\"\"Flush queued events.\"\"\"",
  "        self.posthog.flush()",
  "",
  "    def shutdown(self) -> None:",
  "        \"\"\"Flush and shut down the PostHog client.\"\"\"",
  "        self.posthog.shutdown()",
  "",
  "",
  "# Default instance; construct " ++ className ++ "(posthog_instance=...) for a configured client",
  "hogtyped = " ++ className ++ "()"]

def lines (plan : Plan) : List String :=
  header plan.options ++ (plan.events.flatMap fun event ↦ "" :: eventType event) ++
    ["", "EventName = " ++ eventNameType plan.events, "", ""] ++ schemaTable plan.events ++
    ["", ""] ++ wrapperStart plan.options.className plan.options.mode ++
    plan.events.flatMap overload ++ wrapperEnd plan.options.className

def render (plan : Plan) : String := "\n".intercalate (lines plan) ++ "\n"

end EventSchema.Python
