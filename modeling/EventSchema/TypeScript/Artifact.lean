import EventSchema.Plan
import EventSchema.TypeScript.Literal

/-!
# The TypeScript artifact

A module with an interface for every event, the schema table, and a wrapper class around an
analytics client that checks events before it sends them. It is a list of lines.
-/

set_option autoImplicit false

namespace EventSchema.TypeScript

/-- The type as it is written in a declaration. -/
def typeHint : TypeExpr → String
  | .any => "any"
  | .string => "string"
  | .float | .integer => "number"
  | .boolean => "boolean"
  | .literal values => " | ".intercalate (values.map Json.compact)
  | .list item => "Array<" ++ typeHint item ++ ">"
  | .map => "Record<string, any>"
  | .optional type => typeHint type ++ " | null"

def header (options : PlanOptions) : List String := [
  "// Auto-generated PostHog wrapper with embedded schemas",
  "// Generated at: " ++ options.generatedAt,
  "// Generator: hogtyped " ++ options.generatorVersion,
  "// DO NOT EDIT - This file is auto-generated",
  "",
  "import \x7b PostHog as PostHogClient \x7d from 'posthog-node';",
  "",
  "export enum ValidationMode \x7b",
  "  STRICT = 'strict',",
  "  WARNING = 'warning',",
  "  DISABLED = 'disabled',",
  "\x7d",
  "",
  "// ============ Event Types ============"]

/-! ### Event types -/

/-- That a property may be left out is a mark on its key and not part of its type. -/
def fieldLines (field : Field) : List String :=
  (match field.description with
    | some description => ["  /** " ++ comment description ++ " */"]
    | none => []) ++
  ["  " ++ propertyKey field.name ++ (if field.required then "" else "?") ++ ": " ++
    typeHint field.type.required ++ ";"]

def interfaceLines (event : PlannedEvent) : List String :=
  ["export interface " ++ event.typeName ++ " \x7b"] ++ event.fields.flatMap fieldLines ++ ["\x7d"]

/-! ### Names and schemas -/

def eventNameType (events : List PlannedEvent) : String :=
  if events.isEmpty then "never"
  else " | ".intercalate (events.map fun event ↦ quote event.name)

def propertiesMap (events : List PlannedEvent) : List String :=
  ["export interface EventPropertiesMap \x7b"] ++
    (events.map fun event ↦ "  " ++ quote event.name ++ ": " ++ event.typeName ++ ";") ++ ["\x7d"]

def schemaTable (plan : Plan) : List String := [
  "// ============ Embedded Schemas ============",
  "",
  "export const SCHEMAS: Record<string, any> = " ++ (Json.object plan.schemas).pretty ++ ";"]

/-! ### The wrapper -/

def wrapper (className : String) (mode : Mode) : List String := [
  "// ============ Type-Safe Wrapper ============",
  "",
  "export interface " ++ className ++ "Options \x7b",
  "  apiKey?: string;",
  "  host?: string;",
  "  validationMode?: ValidationMode;",
  "  client?: PostHogClient;",
  "\x7d",
  "",
  "export class " ++ className ++ " \x7b",
  "  private client: PostHogClient;",
  "  private readonly validationMode: ValidationMode;",
  "  private readonly schemas: Record<string, any> = SCHEMAS;",
  "",
  "  constructor(options: " ++ className ++ "Options = \x7b\x7d) \x7b",
  "    this.validationMode = options.validationMode ?? ValidationMode." ++ mode.constant ++ ";",
  "    this.client =",
  "      options.client ??",
  "      new PostHogClient(options.apiKey ?? process.env.POSTHOG_API_KEY ?? '', \x7b",
  "        host: options.host ?? 'https://app.posthog.com',",
  "      \x7d);",
  "  \x7d",
  "",
  "  /** Send events through an existing PostHog client. */",
  "  setClient(client: PostHogClient): void \x7b",
  "    this.client = client;",
  "  \x7d",
  "",
  "  private validate(event: string, properties: Record<string, any>): string[] | null \x7b",
  "    if (this.validationMode === ValidationMode.DISABLED) \x7b",
  "      return null;",
  "    \x7d",
  "",
  "    const schema = this.schemas[event];",
  "    if (!schema) \x7b",
  "      return null;",
  "    \x7d",
  "",
  "    const errors: string[] = [];",
  "",
  "    for (const field of schema.required ?? []) \x7b",
  "      if (!(field in properties)) \x7b",
  "        errors.push(`Missing required field: $\x7bfield\x7d`);",
  "      \x7d",
  "    \x7d",
  "",
  "    const declared = schema.properties ?? \x7b\x7d;",
  "    for (const [field, value] of Object.entries(properties)) \x7b",
  "      const propSchema = declared[field];",
  "      if (propSchema && Array.isArray(propSchema.enum) && " ++
    "!propSchema.enum.includes(value)) \x7b",
  "        errors.push(`Invalid enum value for $\x7bfield\x7d: $\x7bvalue\x7d`);",
  "      \x7d",
  "    \x7d",
  "",
  "    return errors.length > 0 ? errors : null;",
  "  \x7d",
  "",
  "  capture<E extends EventName>(distinctId: string, event: E, properties: " ++
    "EventPropertiesMap[E]): void;",
  "  capture(distinctId: string, event: string, properties?: Record<string, any>): void;",
  "  capture(distinctId: string, event: string, properties: Record<string, any> = " ++
    "\x7b\x7d): void \x7b",
  "    const errors = this.validate(event, properties);",
  "",
  "    if (errors) \x7b",
  "      const message = `Validation failed for event '$\x7bevent\x7d': " ++
    "$\x7berrors.join('; ')\x7d`;",
  "",
  "      if (this.validationMode === ValidationMode.STRICT) \x7b",
  "        throw new Error(message);",
  "      \x7d",
  "",
  "      console.warn(message);",
  "      this.client.capture(\x7b",
  "        distinctId,",
  "        event: '$schema_validation_warning',",
  "        properties: \x7b event, errors, properties \x7d,",
  "      \x7d);",
  "    \x7d",
  "",
  "    this.client.capture(\x7b distinctId, event, properties \x7d);",
  "  \x7d",
  "",
  "  identify(distinctId: string, properties: Record<string, any> = \x7b\x7d): void \x7b",
  "    this.client.identify(\x7b distinctId, properties \x7d);",
  "  \x7d",
  "",
  "  alias(previousId: string, distinctId: string): void \x7b",
  "    this.client.alias(\x7b distinctId, alias: previousId \x7d);",
  "  \x7d",
  "",
  "  async isFeatureEnabled(key: string, distinctId: string): Promise<boolean> \x7b",
  "    return (await this.client.isFeatureEnabled(key, distinctId)) ?? false;",
  "  \x7d",
  "",
  "  async getFeatureFlag(key: string, distinctId: string): Promise<string | boolean | " ++
    "undefined> \x7b",
  "    return this.client.getFeatureFlag(key, distinctId);",
  "  \x7d",
  "",
  "  async flush(): Promise<void> \x7b",
  "    await this.client.flush();",
  "  \x7d",
  "",
  "  async shutdown(): Promise<void> \x7b",
  "    await this.client.shutdown();",
  "  \x7d",
  "\x7d",
  "",
  "export const hogtyped = new " ++ className ++ "();"]

def lines (plan : Plan) : List String :=
  header plan.options ++ (plan.events.flatMap fun event ↦ "" :: interfaceLines event) ++
    ["", "export type EventName = " ++ eventNameType plan.events ++ ";", ""] ++
    propertiesMap plan.events ++ [""] ++ schemaTable plan ++ [""] ++
    wrapper plan.options.className plan.options.mode

def render (plan : Plan) : String := "\n".intercalate (lines plan) ++ "\n"

end EventSchema.TypeScript
