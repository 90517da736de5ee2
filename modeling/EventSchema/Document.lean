import EventSchema.Json.Parser
import EventSchema.Path
import EventSchema.Yaml.Json

/-!
# Schema documents

The text of a document is YAML if its file name ends in `.yaml` or `.yml`, in any case, and JSON
otherwise. A schema document is an object that may hold the objects `events` and `definitions`.
-/

set_option autoImplicit false

namespace EventSchema

/-- Why a text is not a document. -/
inductive ContentError where
  | yamlMalformed (problem : Yaml.Problem)
  | yamlEmpty
  /-- The root is a bad node. -/
  | yamlWithoutJson
  | json (error : Json.ParseError)
  | rootNotObject
  | fieldNotObject (name : String)
deriving DecidableEq, Repr

namespace ContentError

inductive Kind where
  | invalidYaml
  | invalidJson
  | invalidFieldType
deriving DecidableEq, Repr

def kind : ContentError → Kind
  | .yamlMalformed _ | .yamlEmpty | .yamlWithoutJson => .invalidYaml
  | .json _ => .invalidJson
  | .rootNotObject | .fieldNotObject _ => .invalidFieldType

def Kind.label : Kind → String
  | .invalidYaml => "Invalid YAML"
  | .invalidJson => "Invalid JSON"
  | .invalidFieldType => "Invalid field type"

/-- What is wrong, without the kind. -/
def detail : ContentError → String
  | .yamlMalformed problem =>
    s!"YAML parse error: unexpected text at line {problem.line + 1} column {problem.column + 1}"
  | .yamlEmpty => "YAML document is empty"
  | .yamlWithoutJson => "Failed to convert YAML to JSON value"
  | .json error => "JSON parse error: " ++ error.message
  | .rootNotObject => "Invalid schema document: expected an object"
  | .fieldNotObject name => s!"Invalid schema document: \"{name}\" must be an object"

def message (error : ContentError) : String := error.kind.label ++ ": " ++ error.detail

/-- The message where the text is that of a file. -/
def messageIn (error : ContentError) (file : String) : String :=
  s!"{error.kind.label} in {file}: {error.detail}"

end ContentError

/-- Whether the path names a YAML document. -/
def Path.isYaml (path : Path) : Bool :=
  let lower := path.text.toList.map Text.lowerAscii
  Text.endsWith ".yaml".toList lower || Text.endsWith ".yml".toList lower

/-- Reads the first document of a YAML text. -/
def readYaml (content : String) : Except ContentError Json :=
  match Yaml.documents content.toList with
  | .error problem => .error (.yamlMalformed problem)
  | .ok [] => .error .yamlEmpty
  | .ok (root :: _) =>
    match root.toJson? with
    | some value => .ok value
    | none => .error .yamlWithoutJson

/-- Reads the value that a text of the given path holds. -/
def readContent (path : Path) (content : String) : Except ContentError Json :=
  if path.isYaml then readYaml content else (Json.parse content).mapError .json

/-- A schema document and the path it was read from, as spelled. -/
structure Document where
  path : Path
  root : Json
deriving DecidableEq, Repr

namespace Document

/-- The declared events, in order. -/
def events (document : Document) : Fields :=
  ((document.root.get? "events").bind Json.asObject?).getD []

def definitions? (document : Document) : Option Fields :=
  (document.root.get? "definitions").bind Json.asObject?

/-- Refuses a root that is no object, and one whose field is there but is no object. -/
def checkRoot (root : Json) : Except ContentError Unit := do
  if !root.isObject then throw .rootNotObject
  for name in ["events", "definitions"] do
    if (root.get? name).any fun value ↦ !value.isObject then throw (.fieldNotObject name)

def read (path : Path) (content : String) : Except ContentError Document := do
  let root ← readContent path content
  checkRoot root
  return ⟨path, root⟩

end Document

end EventSchema
