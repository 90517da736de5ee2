import EventSchema.Fragment.Expand
import EventSchema.Fragment.Followed
import EventSchema.Reference
import EventSchema.Source

/-!
# Resolving references

A resolver replaces references by what they denote and merges compositions. It keeps the documents
it was given and those it read, so that the source is asked once for each, and the places of the
references that it is following. A reference to nothing resolves to no schema and is noted; one of
no known form, a place that is met inside itself and a document that cannot be loaded are errors.

Every followed reference denotes a place that some known reference denotes, and no place is
followed inside itself, so the number of such places bounds how deep references nest.
-/

set_option autoImplicit false

namespace EventSchema

/-- A reference whose target does not exist, and the document that holds it. -/
structure MissingReference where
  reference : String
  file : String
deriving DecidableEq, Repr

def MissingReference.message (missing : MissingReference) : String :=
  s!"unresolved reference '{missing.reference}' in {missing.file}"

inductive ResolutionError where
  | unsupportedReference (reference : String) (file : String)
  /-- The chain from the place that is met again, up to that place. -/
  | cyclicReference (chain : List Location)
  | externalDocument (error : LoadError)
deriving DecidableEq, Repr

def ResolutionError.message : ResolutionError → String
  | .unsupportedReference reference file =>
    s!"Unsupported reference '{reference}' in {file}: only '#/...' and relative './...' " ++
      "references are supported"
  | .cyclicReference chain =>
    "Cyclic reference detected: " ++ " -> ".intercalate (chain.map Location.text)
  | .externalDocument error => "Failed to load referenced document: " ++ error.message

structure Resolver where
  source : Source
  /-- The known documents, under their normal paths. -/
  documents : List (Path × Json) := []
  /-- The places that are being followed, each inside the one before it. -/
  active : List Location := []
  /-- The missing references met so far, in order. -/
  missing : List MissingReference := []
  /-- The paths that the source was asked for, in order. -/
  reads : List Path := []
deriving Repr

/-- A step of a resolver that may fail, or end without an answer where it may not go deeper. -/
abbrev ResolveM := ExceptT ResolutionError (StateT Resolver Option)

namespace Resolver

def putDocument (documents : List (Path × Json)) (path : Path) (root : Json) :
    List (Path × Json) :=
  match documents with
  | [] => [(path, root)]
  | entry :: rest =>
    if entry.1 = path then (path, root) :: rest else entry :: putDocument rest path root

/-- Makes a document available to references from others. -/
def register (r : Resolver) (path : Path) (root : Json) : Resolver :=
  { r with documents := putDocument r.documents path.normalize root }

/-- Forgets the missing references. -/
def takeMissing (r : Resolver) : List MissingReference × Resolver :=
  (r.missing, { r with missing := [] })

/-- The document at a normal path: a known one, else the one that the source holds. -/
def document? (r : Resolver) (path : Path) : Except LoadError (Option Json) :=
  match r.documents.lookup path with
  | some root => .ok (some root)
  | none => r.source.document? path

/-- Gives the document at a normal path, and keeps it if it was not known. -/
def load (path : Path) : ResolveM (Option Json) := do
  let r ← get
  match r.documents.lookup path with
  | some root => return some root
  | none =>
    set { r with reads := r.reads ++ [path] }
    match r.source.document? path with
    | .error error => throw (.externalDocument error)
    | .ok none => return none
    | .ok (some root) =>
      modify fun r ↦ { r with documents := putDocument r.documents path root }
      return some root

/-- Notes a reference to nothing. -/
def recordMissing (reference : String) (current : Path) : ResolveM Fragment := do
  modify fun r ↦ { r with missing := r.missing ++ [⟨reference, current.text⟩] }
  return .absent

/-- Starts to follow a place, unless it is being followed already. -/
def enter (location : Location) : ResolveM Unit := do
  let r ← get
  if location ∈ r.active then
    throw (.cyclicReference (r.active.dropWhile (· ≠ location) ++ [location]))
  set { r with active := r.active ++ [location] }

def leave (r : Resolver) : Resolver := { r with active := r.active.dropLast }

/-- Follows a place while it does the rest, and leaves the place whether that fails or not. -/
def inside (location : Location) (rest : ResolveM Fragment) : ResolveM Fragment := do
  enter location
  ExceptT.mk do
    let result ← rest.run
    modify leave
    return result

/-- The document that a reference leads to, and the path from which its own references are seen. -/
def target (reference : Reference) (root : Json) (current : Path) :
    ResolveM (Option (Json × Path)) :=
  match reference with
  | .internal _ => return some (root, current)
  | .external .. => do
    let file := (reference.locate current).file
    return (← load file).map (·, file)

/-- Follows a reference met in the document `root` at `current`, and hands what it denotes to
`next`. -/
def follow (next : Json → Path → Fragment → ResolveM Fragment) (root : Json) (current : Path)
    (text : String) : ResolveM Fragment :=
  match Reference.parse? text with
  | none => throw (.unsupportedReference text current.text)
  | some reference =>
    let location := reference.locate current
    inside location do
      match ← target reference root current with
      | none => recordMissing text current
      | some (document, path) =>
        match location.pointer.lookup document with
        | none => recordMissing text current
        | some value => next document path (.ofJson value)

/-- Resolves a fragment of the document `root` at `current`. There is no answer if references nest
deeper than `depth - 1`. -/
def resolveWithin : Nat → Json → Path → Fragment → ResolveM Fragment
  | 0, _, _, _ => fun _ ↦ none
  | depth + 1, root, current, fragment =>
    fragment.expand (follow (resolveWithin depth) root current)

/-- The documents of the source that are not known yet. -/
def unreadDocuments (r : Resolver) : List (Path × Json) :=
  r.source.files.filterMap fun file ↦
    if (r.documents.lookup file.1).isSome then none
    else (readContent file.1 file.2).toOption.map (file.1, ·)

/-- The places that the references of the fragment, of its document and of all documents at hand
denote. -/
def places (r : Resolver) (root : Json) (current : Path) (fragment : Fragment) : List Location :=
  Reference.locations current fragment.followed ++
    ((current, root) :: (r.documents ++ r.unreadDocuments)).flatMap fun entry ↦
      Reference.locations entry.1 entry.2.referenceTexts

/-- References nest no deeper, since no place is followed inside itself. -/
def depthLimit (r : Resolver) (root : Json) (current : Path) (fragment : Fragment) : Nat :=
  (r.places root current fragment).length + 1

/-- Resolves a fragment of the document `root` at `current`. The depth limit is never met. -/
def resolve (r : Resolver) (fragment : Fragment) (root : Json) (current : Path) :
    Except ResolutionError Fragment × Resolver :=
  ((resolveWithin (r.depthLimit root current fragment) root current fragment).run.run r).getD
    (.error (.cyclicReference []), r)

end Resolver

end EventSchema
