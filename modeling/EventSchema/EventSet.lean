import EventSchema.CompileError
import EventSchema.TypeName

/-!
# Loading events

The documents at the given paths are read in path order, each place once, and every declared event
is resolved in its own document. Of several declarations of an event the last is kept, and every
overwriting is noted.
-/

set_option autoImplicit false

namespace EventSchema

/-- A resolved event and the document that declares it. -/
structure Event where
  name : String
  typeName : String
  schema : Fragment
  properties : Properties
  required : List String
  source : Path
deriving DecidableEq, Repr

def Event.ofSchema (name : String) (schema : Fragment) (source : Path) : Event where
  name
  typeName := TypeName.ofEvent name
  schema
  properties := schema.properties
  required := schema.required
  source

/-- A declaration that gave way to a later one. -/
structure Overwritten where
  event : String
  previous : Path
  replacement : Path
deriving DecidableEq, Repr

/-- The events of a run, by descending name, and what was noted while loading them. -/
structure EventSet where
  events : List Event := []
  missing : List MissingReference := []
  overwritten : List Overwritten := []
deriving DecidableEq, Repr

namespace EventSet

def find? (set : EventSet) (name : String) : Option Event := set.events.find? (·.name = name)

/-- The paths in order; of several spellings of a place the first. -/
def distinctPaths (paths : List Path) : List Path :=
  dropRepeated (paths.mergeSort fun a b ↦ !b.lt a)
where
  dropRepeated : List Path → List Path
    | [] => []
    | path :: rest =>
      path :: (dropRepeated rest).dropWhile path.same

def readDocument (source : Source) (path : Path) : Except LoadError Document := do
  match ← source.read path with
  | none => throw (.unreadable path.text "file not found")
  | some content => (Document.read path content).mapError (.content path.text)

/-- An event declaration: its document, its name and its schema. -/
structure Declaration where
  document : Document
  name : String
  schema : Json

/-- All declarations, in order of documents and within them. -/
def declarations (documents : List Document) : List Declaration :=
  documents.flatMap fun document ↦
    document.events.map fun (name, schema) ↦ ⟨document, name, schema⟩

/-- The state of a load: the resolver, the events by name, and what was overwritten. -/
structure Progress where
  resolver : Resolver
  events : Entries Event := []
  overwritten : List Overwritten := []

def Progress.add (progress : Progress) (declaration : Declaration) :
    Except ResolutionError Progress :=
  let document := declaration.document
  let (result, resolver) :=
    progress.resolver.resolve (.ofJson declaration.schema) document.root document.path
  result.map fun schema ↦
    { resolver
      events := progress.events.insert declaration.name
        (Event.ofSchema declaration.name schema document.path)
      overwritten := progress.overwritten ++
        match progress.events.get? declaration.name with
        | some previous => [⟨declaration.name, previous.source, document.path⟩]
        | none => [] }

/-- Reads all documents before it resolves any event. -/
def loadProgress (paths : List Path) (source : Source) : Except CompileError Progress := do
  let documents ← ((distinctPaths paths).mapM (readDocument source)).mapError .load
  let resolver := documents.foldl (fun r document ↦ r.register document.path document.root)
    { source }
  ((declarations documents).foldlM Progress.add { resolver }).mapError .resolution

def Progress.toEventSet (progress : Progress) : EventSet where
  events := progress.events.values.mergeSort fun a b ↦ b.name ≤ a.name
  missing := progress.resolver.missing
  overwritten := progress.overwritten

def load (paths : List Path) (source : Source) : Except CompileError EventSet :=
  (loadProgress paths source).map Progress.toEventSet

end EventSet

end EventSchema
