import EventSchema.Path

/-!
# File systems

What programs ask of a tree of files. Every operation either does its work or says which fault
kept it from it.
-/

set_option autoImplicit false

namespace EventSchema

inductive Fault where
  | notFound
  | denied
  | busy
  | alreadyExists
  | notDirectory
  | isDirectory
  | noSpace
  | notText
  | other (text : String)
deriving DecidableEq, Repr, Inhabited

def Fault.message : Fault → String
  | notFound => "No such file or directory (os error 2)"
  | denied => "Permission denied (os error 13)"
  | busy => "Device or resource busy (os error 16)"
  | alreadyExists => "File exists (os error 17)"
  | notDirectory => "Not a directory (os error 20)"
  | isDirectory => "Is a directory (os error 21)"
  | noSpace => "No space left on device (os error 28)"
  | notText => "stream did not contain valid UTF-8"
  | other text => text

inductive EntryKind where
  | file
  | directory
deriving DecidableEq, Repr

class FileSystem (m : Type → Type) where
  /-- What is at a path; none when nothing is there. -/
  kind? : Path → m (Option EntryKind)
  /-- The names in a directory. -/
  names : Path → m (Except Fault (List String))
  read : Path → m (Except Fault String)
  /-- Replaces the content of a file, or creates the file. -/
  write : Path → String → m (Except Fault Unit)
  /-- Creates a directory in one that is there. -/
  createDirectory : Path → m (Except Fault Unit)
  /-- Moves a file to another path, in place of a file that may be there. -/
  rename : Path → Path → m (Except Fault Unit)
  /-- Removes a file. -/
  remove : Path → m (Except Fault Unit)
  /-- The absolute path without detours of what is at a path. -/
  canonical? : Path → m (Option Path)

namespace FileSystem

variable {m : Type → Type} [Monad m] [FileSystem m]

def pathExists (path : Path) : m Bool := return (← kind? path).isSome

def isFile (path : Path) : m Bool := return (← kind? path) = some .file

def isDirectory (path : Path) : m Bool := return (← kind? path) = some .directory

/-- Creates the directory with the given components, in reverse, and those above it that are not
there. -/
def createAbove : List Path.Component → m (Except Fault Unit)
  | [] => return .ok ()
  | component :: above => do
    let path := Path.ofComponents (component :: above).reverse
    let create : m (Except Fault Unit) := do
      match ← createDirectory path with
      | .ok _ => return .ok ()
      | .error fault => return if ← isDirectory path then .ok () else .error fault
    match ← createDirectory path with
    | .ok _ => return .ok ()
    | .error .notFound =>
      match ← createAbove above with
      | .ok _ => create
      | .error fault => return .error fault
    | .error fault => return if ← isDirectory path then .ok () else .error fault

def createDirectories (path : Path) : m (Except Fault Unit) :=
  createAbove path.components.reverse

end FileSystem

end EventSchema
