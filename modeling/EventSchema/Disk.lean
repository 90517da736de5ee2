import EventSchema.Entries
import EventSchema.FileSystem

/-!
# A disk

A tree of files in which names lead from directory to directory, with a working directory and,
where it is bounded, room for so many more characters. A write for which there is no room leaves
the part that fits.
-/

set_option autoImplicit false

namespace EventSchema

inductive Entry where
  | file (content : String)
  | directory (entries : List (String × Entry))
deriving Repr, Inhabited

namespace Entry

def kind : Entry → EntryKind
  | file _ => .file
  | directory _ => .directory

/-- The entry at a place, which is the list of names that leads to it. -/
def find? : Entry → List String → Option Entry
  | entry, [] => some entry
  | directory entries, name :: rest =>
    match Entries.get? entries name with
    | some child => child.find? rest
    | none => none
  | file _, _ :: _ => none

/-- Puts an entry at a place whose directory is there. -/
def put : Entry → List String → Entry → Entry
  | _, [], entry => entry
  | file content, _ :: _, _ => file content
  | directory entries, [name], entry => directory (Entries.insert entries name entry)
  | directory entries, name :: next :: rest, entry =>
    match Entries.get? entries name with
    | some child => directory (Entries.insert entries name (child.put (next :: rest) entry))
    | none => directory entries

/-- Takes away the entry at a place. -/
def erase : Entry → List String → Entry
  | entry, [] => entry
  | file content, _ :: _ => file content
  | directory entries, [name] => directory (entries.filter (·.1 ≠ name))
  | directory entries, name :: next :: rest =>
    match Entries.get? entries name with
    | some child => directory (Entries.insert entries name (child.erase (next :: rest)))
    | none => directory entries

mutual

/-- All files and directories below an entry, with their places and the content of files. -/
def flatten (place : List String) : Entry → List (List String × Option String)
  | file content => [(place, some content)]
  | directory entries => (place, none) :: flattenEntries place entries

def flattenEntries (place : List String) :
    List (String × Entry) → List (List String × Option String)
  | [] => []
  | (name, entry) :: rest => entry.flatten (place ++ [name]) ++ flattenEntries place rest

end

end Entry

structure Disk where
  root : Entry := .directory []
  /-- The place of the working directory. -/
  current : List String := []
  room : Option Nat := none
deriving Repr, Inhabited

namespace Disk

/-! ### Walking -/

/-- The names of a path as they stand. -/
def steps (path : Path) : List String :=
  ((Text.split (· = '/') path.text.toList).filter fun part ↦ !part.isEmpty).map String.ofList

/-- Whether a slash at the end asks for a directory. -/
def asksDirectory (path : Path) : Bool := Text.endsWith ['/'] path.text.toList

/-- Walks from a place that is there, step by step through directories. -/
def walk (disk : Disk) : List String → List String → Except Fault (List String)
  | place, [] => .ok place
  | place, step :: rest =>
    match disk.root.find? place with
    | some (.directory entries) =>
      if step = "." then disk.walk place rest
      else if step = ".." then disk.walk place.dropLast rest
      else if Entries.contains entries step then disk.walk (place ++ [step]) rest
      else .error .notFound
    | some (.file _) => .error .notDirectory
    | none => .error .notFound

def startOf (disk : Disk) (path : Path) : List String :=
  if path.isAbsolute then [] else disk.current

/-- The place that a path leads to. -/
def locate (disk : Disk) (path : Path) : Except Fault (List String) :=
  if path.text = "" then .error .notFound
  else disk.walk (disk.startOf path) (steps path ++ if asksDirectory path then ["."] else [])

def entry? (disk : Disk) (path : Path) : Option Entry :=
  match disk.locate path with
  | .ok place => disk.root.find? place
  | .error _ => none

/-- The directory in which the last step of a path is to be made, and that step. -/
def locateLast (disk : Disk) (path : Path) : Except Fault (List String × String) :=
  match (steps path).reverse with
  | [] => .error (if path.text = "" then .notFound else .isDirectory)
  | last :: before => do
    let place ← disk.walk (disk.startOf path) before.reverse
    match disk.root.find? place with
    | some (.directory _) => .ok (place, last)
    | _ => .error .notDirectory

def isDot (name : String) : Bool := name = "." || name = ".."

/-! ### Operations -/

def kindOf (disk : Disk) (path : Path) : Option EntryKind := (disk.entry? path).map Entry.kind

def namesOf (disk : Disk) (path : Path) : Except Fault (List String) := do
  match disk.root.find? (← disk.locate path) with
  | some (.directory entries) => .ok (Entries.keys entries)
  | _ => .error .notDirectory

def readFile (disk : Disk) (path : Path) : Except Fault String := do
  match disk.root.find? (← disk.locate path) with
  | some (.file content) => .ok content
  | some (.directory _) => .error .isDirectory
  | none => .error .notFound

def canonicalPath? (disk : Disk) (path : Path) : Option Path :=
  match disk.locate path with
  | .ok place => some ⟨"/" ++ "/".intercalate place⟩
  | .error _ => none

def writeAt (disk : Disk) (place : List String) (content : String) :
    Except Fault Unit × Disk :=
  match disk.room with
  | none => (.ok (), { disk with root := disk.root.put place (.file content) })
  | some room =>
    let written := String.ofList (content.toList.take room)
    let after := { disk with
      root := disk.root.put place (.file written)
      room := some (room - content.length) }
    (if content.length ≤ room then .ok () else .error .noSpace, after)

def writeFile (disk : Disk) (path : Path) (content : String) : Except Fault Unit × Disk :=
  match disk.locateLast path with
  | .error fault => (.error fault, disk)
  | .ok (place, name) =>
    if isDot name || asksDirectory path then (.error .isDirectory, disk)
    else match disk.root.find? (place ++ [name]) with
      | some (.directory _) => (.error .isDirectory, disk)
      | _ => disk.writeAt (place ++ [name]) content

def makeDirectory (disk : Disk) (path : Path) : Except Fault Unit × Disk :=
  match disk.locateLast path with
  | .error .isDirectory => (.error .alreadyExists, disk)
  | .error fault => (.error fault, disk)
  | .ok (place, name) =>
    if isDot name || (disk.root.find? (place ++ [name])).isSome then (.error .alreadyExists, disk)
    else (.ok (), { disk with root := disk.root.put (place ++ [name]) (.directory []) })

/-- Moves a file. The target may be neither a directory nor spelled like one. -/
def renameFile (disk : Disk) (source target : Path) : Except Fault Unit × Disk :=
  match disk.locate source, disk.locateLast target with
  | .error fault, _ | _, .error fault => (.error fault, disk)
  | .ok old, .ok (place, name) =>
    if asksDirectory target then (.error .notDirectory, disk)
    else if isDot name then (.error .busy, disk)
    else match disk.root.find? old, disk.root.find? (place ++ [name]) with
      | some (.file content), some (.file _) | some (.file content), none =>
        if old = place ++ [name] then (.ok (), disk)
        else (.ok (), { disk with
          root := (disk.root.erase old).put (place ++ [name]) (.file content) })
      | some (.file _), some (.directory _) => (.error .isDirectory, disk)
      | some (.directory _), _ => (.error .isDirectory, disk)
      | none, _ => (.error .notFound, disk)

def removeFile (disk : Disk) (path : Path) : Except Fault Unit × Disk :=
  match disk.locate path with
  | .error fault => (.error fault, disk)
  | .ok place =>
    match disk.root.find? place with
    | some (.file _) => (.ok (), { disk with root := disk.root.erase place })
    | some (.directory _) => (.error .isDirectory, disk)
    | none => (.error .notFound, disk)

end Disk

/-- Programs on a disk. -/
abbrev DiskM := StateM Disk

instance : FileSystem DiskM where
  kind? path := return (← get).kindOf path
  names path := return (← get).namesOf path
  read path := return (← get).readFile path
  write path content := modifyGet (·.writeFile path content)
  createDirectory path := modifyGet (·.makeDirectory path)
  rename source target := modifyGet (·.renameFile source target)
  remove path := modifyGet (·.removeFile path)
  canonical? path := return (← get).canonicalPath? path

end EventSchema
