import EventSchema.Document

/-!
# Sources of documents

A source holds the texts that paths lead to, under the normal form of the path. A path that leads
nowhere is absent, which is no failure; one that is there but cannot be read is.
-/

set_option autoImplicit false

namespace EventSchema

/-- Why a document could not be loaded. -/
inductive LoadError where
  | content (file : String) (error : ContentError)
  | unreadable (file : String) (reason : String)
deriving DecidableEq, Repr

def LoadError.message : LoadError → String
  | .content file error => error.messageIn file
  | .unreadable file reason => s!"Failed to read {file}: {reason}"

structure Source where
  files : List (Path × String) := []
  /-- Paths that cannot be read, with the reason. -/
  failures : List (Path × String) := []
deriving Repr, Inhabited

namespace Source

/-- Replaces the value under a path, or adds it at the end. -/
def put (entries : List (Path × String)) (path : Path) (value : String) : List (Path × String) :=
  match entries with
  | [] => [(path, value)]
  | entry :: rest =>
    if entry.1 = path then (path, value) :: rest else entry :: put rest path value

def insert (source : Source) (path : Path) (content : String) : Source :=
  { source with files := put source.files path.normalize content }

def refuse (source : Source) (path : Path) (reason : String) : Source :=
  { source with failures := put source.failures path.normalize reason }

/-- The paths of the texts, in order. -/
def paths (source : Source) : List Path :=
  (source.files.map Prod.fst).mergeSort fun a b ↦ !b.lt a

/-- The text at a path, none when there is nothing. -/
def read (source : Source) (path : Path) : Except LoadError (Option String) :=
  match source.failures.lookup path.normalize with
  | some reason => .error (.unreadable path.text reason)
  | none => .ok (source.files.lookup path.normalize)

/-- The document at a path, none when there is nothing. -/
def document? (source : Source) (path : Path) : Except LoadError (Option Json) :=
  match source.read path with
  | .error error => .error error
  | .ok none => .ok none
  | .ok (some content) =>
    ((readContent path content).map some).mapError (.content path.text)

end Source

end EventSchema
