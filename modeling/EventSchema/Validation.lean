import EventSchema.Document.MetaSchema
import EventSchema.Schema
import EventSchema.Text.Blank
import EventSchema.TypeName
import EventSchema.Validation.Diagnostic
import EventSchema.Validation.ReferenceCheck
import EventSchema.Validation.Suggestion

/-!
# Validating documents

A document is checked against a schema of documents, for blank event names, and for references that
lead nowhere. Several documents are also checked for events that are declared twice and for events
whose types would share a name.
-/

set_option autoImplicit false

namespace EventSchema

/-- A problem of a document. -/
inductive Finding where
  /-- The schema of documents is itself none. -/
  | schemaInvalid (violation : Schema.Violation)
  | schema (violation : Schema.Violation)
  | blankEventName (event : String)
  | unsupportedReference (place : Pointer) (reference : String)
  | unresolvableReference (place : Pointer) (reference : String) (suggested : Option Pointer)
  /-- The event is declared in an earlier file too. -/
  | duplicateEvent (event : String) (firstFile : String)
  /-- Another event, in a file that is not later, has the same type name. -/
  | typeNameCollision (event typeName other otherFile : String)
deriving DecidableEq, Repr

namespace Finding

def eventPlace (event : String) : Pointer := ⟨["events", event]⟩

def message : Finding → String
  | schemaInvalid violation => "Failed to compile schema: " ++ violation.message
  | schema violation => violation.message
  | blankEventName _ => "Event name must not be empty"
  | unsupportedReference _ reference => s!"Unsupported reference '{reference}'"
  | unresolvableReference _ reference _ => s!"Unresolvable reference '{reference}'"
  | duplicateEvent event firstFile =>
    s!"Duplicate event name: '{event}' (also declared in {firstFile})"
  | typeNameCollision event typeName other otherFile =>
    s!"Event '{event}' generates the type name '{typeName}', already used by '{other}' " ++
      s!"in {otherFile}"

/-- The root of the document where nothing more is known. -/
def place : Finding → Pointer
  | schemaInvalid _ => ⟨[]⟩
  | schema violation => violation.place
  | unsupportedReference place _ | unresolvableReference place _ _ => place
  | blankEventName event | duplicateEvent event _ | typeNameCollision event _ _ _ =>
    eventPlace event

def suggestion? : Finding → Option String
  | schemaInvalid _ => none
  | schema violation => violation.suggestion?
  | blankEventName _ => some "Give the event a descriptive name such as 'page_viewed'"
  | unsupportedReference .. =>
    some ("Use '#/definitions/Name' for this file or " ++
      "'./other.schema.json#/definitions/Name' for another file")
  | unresolvableReference _ _ suggested =>
    suggested.map fun pointer ↦ s!"Did you mean '{pointer.text}'?"
  | duplicateEvent .. =>
    some "Event names must be unique across schema files; the last declaration wins"
  | typeNameCollision .. =>
    some "Rename one of the events so their generated type names differ"

def toDiagnostic (finding : Finding) (file : String) : Diagnostic where
  file
  message := finding.message
  path := if finding.place.segments.isEmpty then none else some finding.place.path
  suggestion := finding.suggestion?

end Finding

/-- A finding and the file it concerns. -/
structure FileFinding where
  file : String
  finding : Finding
deriving DecidableEq, Repr

def FileFinding.toDiagnostic (entry : FileFinding) : Diagnostic :=
  entry.finding.toDiagnostic entry.file

/-- A file name and the value that the file holds. -/
abbrev NamedDocument := String × Json

namespace Validation

def schemaFindings (schema data : Json) : List Finding :=
  match Schema.ofJson schema with
  | .error violation => [.schemaInvalid violation]
  | .ok schema => (schema.violations data).map .schema

/-- The names of the declared events, in order. -/
def eventNames (data : Json) : List String :=
  (((data.get? "events").bind Json.asObject?).getD []).map Prod.fst

def nameFindings (data : Json) : List Finding :=
  ((eventNames data).filter fun name ↦ name.toList.all Text.isBlank).map .blankEventName

def referenceFindings (data : Json) : List Finding :=
  (data.references ⟨[]⟩).filterMap fun reference ↦
    (ReferenceProblem.of? data reference.text).map fun
      | .unsupported => .unsupportedReference reference.place reference.text
      | .unresolvable suggested =>
        .unresolvableReference reference.place reference.text suggested

/-- All findings of one document. -/
def documentFindings (schema data : Json) : List Finding :=
  schemaFindings schema data ++ nameFindings data ++ referenceFindings data

/-! ### Several documents -/

/-- A declared event and the file that declares it. -/
structure DeclaredEvent where
  file : String
  name : String
deriving DecidableEq, Repr

def declaredEvents (documents : List NamedDocument) : List DeclaredEvent :=
  documents.flatMap fun (file, data) ↦ (eventNames data).map (DeclaredEvent.mk file)

/-- The findings of a list of events, where `seen` are the first ones of their key so far and
`finding?` compares an event with the first one of its key. -/
def compareWithFirst {α : Type} [DecidableEq α] (key : DeclaredEvent → α)
    (finding? : DeclaredEvent → DeclaredEvent → Option Finding) :
    List DeclaredEvent → List DeclaredEvent → List FileFinding
  | _, [] => []
  | seen, event :: rest =>
    match seen.find? fun first ↦ key first = key event with
    | some first =>
      ((finding? first event).map (FileFinding.mk event.file)).toList ++
        compareWithFirst key finding? seen rest
    | none => compareWithFirst key finding? (seen ++ [event]) rest

def duplicateFindings (documents : List NamedDocument) : List FileFinding :=
  compareWithFirst DeclaredEvent.name
    (fun first event ↦ some (.duplicateEvent event.name first.file))
    [] (declaredEvents documents)

def collisionFindings (documents : List NamedDocument) : List FileFinding :=
  compareWithFirst (fun event ↦ TypeName.ofEvent event.name)
    (fun first event ↦
      if first.name = event.name then none
      else some (.typeNameCollision event.name (TypeName.ofEvent event.name)
        first.name first.file))
    [] (declaredEvents documents)

/-- All findings of a set of documents: document by document, then across them. -/
def findings (schema : Json) (documents : List NamedDocument) : List FileFinding :=
  (documents.flatMap fun (file, data) ↦
    (documentFindings schema data).map (FileFinding.mk file)) ++
  duplicateFindings documents ++ collisionFindings documents

end Validation

end EventSchema
