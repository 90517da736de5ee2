import EventSchema.Command.Error
import EventSchema.EventSet
import EventSchema.Glob.Expand
import EventSchema.Validation.ReferenceCheck

/-!
# Finding and reading schema files

The files that a pattern matches, and the source that holds them and all files that they refer to,
directly or through others.
-/

set_option autoImplicit false

namespace EventSchema

variable {m : Type → Type} [Monad m] [FileSystem m]

def readConfig : CommandM m Config := do
  let path : Path := ⟨Config.fileName⟩
  if ← (FileSystem.pathExists path : m Bool) then
    let text ← CommandM.attempt (FileSystem.read path) .configUnreadable
    CommandM.ofExcept .configInvalid (Config.parse text)
  else return {}

/-- The files that a pattern matches, in path order. -/
def discover (pattern : String) : CommandM m (List Path) := do
  let glob ← CommandM.ofExcept (.patternInvalid pattern) (Glob.parse pattern)
  let found ← CommandM.attempt glob.expand.run
  let files ← found.filterM fun path ↦ (FileSystem.isFile path : m Bool)
  return files.mergeSort fun a b ↦ !b.lt a

/-- Reads a file as a schema document. -/
def readSchema (path : Path) : CommandM m Json := do
  let content ← CommandM.attempt (FileSystem.read path) (.unreadable path)
  let document ← CommandM.ofExcept (fun error ↦ .compile (.load (.content path.text error)))
    (Document.read path content)
  return document.root

namespace Source

/-- The files that the text at a path refers to. -/
def targetsOf (path : Path) (content : String) : List Path :=
  match readContent path content with
  | .error _ => []
  | .ok root =>
    (root.references ⟨[]⟩).filterMap fun reference ↦
      match Reference.parse? reference.text with
      | some (.external file pointer) => some ((Reference.external file pointer).locate path).file
      | _ => none

/-- No source is gathered from more files. -/
def gatherLimit : Nat := 1000000

/-- Reads the pending files and what they refer to. A file that is not there is passed over, and
one that cannot be read is refused for that reason. -/
def gatherFrom : Nat → List Path → List Path → Source → m Source
  | 0, _, _, source => return source
  | _, _, [], source => return source
  | steps + 1, seen, path :: pending, source => do
    if seen.contains path.normalize then gatherFrom steps seen pending source
    else
      let seen := path.normalize :: seen
      match ← (FileSystem.read path : m (Except Fault String)) with
      | .ok content =>
        gatherFrom steps seen (pending ++ targetsOf path content) (source.insert path content)
      | .error .notFound => gatherFrom steps seen pending source
      | .error fault => gatherFrom steps seen pending (source.refuse path fault.message)

/-- The source that holds the files and all that they lead to. -/
def gather (paths : List Path) : m Source := gatherFrom gatherLimit [] paths {}

end Source

/-- Loads the events of files. -/
def loadFiles (files : List Path) : CommandM m EventSet := do
  let source ← (Source.gather files : m Source)
  CommandM.ofExcept .compile (EventSet.load files source)

end EventSchema
