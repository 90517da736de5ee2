import EventSchema.Command
import Std.Time

/-!
# The program

Runs the command that the arguments name on the files of the machine.
-/

set_option autoImplicit false

open EventSchema

namespace EventSchema.Program

def faultOf : IO.Error → Fault
  | .noFileOrDirectory .. => .notFound
  | .noSuchThing .. => .notFound
  | .permissionDenied .. => .denied
  | .alreadyExists .. => .alreadyExists
  | .resourceBusy .. => .busy
  | .inappropriateType _ 20 _ => .notDirectory
  | .inappropriateType _ 21 _ => .isDirectory
  | .resourceExhausted _ 28 _ => .noSpace
  | error => .other (toString error)

def attempt {α : Type} (action : IO α) : IO (Except Fault α) := do
  try return .ok (← action)
  catch error => return .error (faultOf error)

/-- The file as it is found; links are followed. -/
def metadata? (path : Path) : IO (Option IO.FS.Metadata) := do
  try
    if path.text = "" then return none
    let found ← IO.FS.realPath path.text
    return some (← found.metadata)
  catch _ => return none

def kindOf? (path : Path) : IO (Option EntryKind) := do
  match ← metadata? path with
  | none => return none
  | some metadata =>
    match metadata.type with
    | .dir => return some .directory
    | _ => return some .file

/-- Directories cannot be opened as files, and bytes must be text. -/
def readText (path : Path) : IO (Except Fault String) := do
  if (← kindOf? path) = some .directory then return .error .isDirectory
  match ← attempt (IO.FS.readBinFile path.text) with
  | .error fault => return .error fault
  | .ok bytes =>
    match String.fromUTF8? bytes with
    | some text => return .ok text
    | none => return .error .notText

instance : FileSystem IO where
  kind? := kindOf?
  names path := attempt do
    let found ← IO.FS.realPath path.text
    return (← found.readDir).toList.map (·.fileName)
  read := readText
  write path content := attempt (IO.FS.writeFile path.text content)
  createDirectory path := attempt (IO.FS.createDir path.text)
  rename source target := attempt (IO.FS.rename source.text target.text)
  remove path := attempt (IO.FS.removeFile path.text)
  canonical? path := do
    try return some ⟨toString (← IO.FS.realPath path.text)⟩
    catch _ => return none

def timeNow : IO String := do
  return (← Std.Time.PlainDateTime.now).format "uuuu-MM-dd'T'HH:mm:ss.SSSSSS"

def present (report : Report) : IO UInt32 := do
  IO.print report.outputText
  IO.eprint report.errorText
  return UInt32.ofNat report.exitCode

/-! ### Watching -/

/-- The schema files below a directory, with the time of their last change. -/
partial def changeTimes (output path : Path) : IO (List (Path × Int × UInt32)) := do
  match ← metadata? path with
  | none => return []
  | some metadata =>
    match metadata.type with
    | .dir =>
      match ← (FileSystem.names path : IO (Except Fault (List String))) with
      | .ok names =>
        return (← names.mapM fun name ↦ changeTimes output (Glob.below path name)).flatten
      | .error _ => return []
    | _ =>
      if ← isRelevantChange path output then
        return [(path, metadata.modified.sec, metadata.modified.nsec)]
      else return []

/-- Generates again whenever the files differ from what they were, once they are at rest. -/
partial def watchLoop (watcher : Watch.Watcher) (before : List (Path × Int × UInt32)) :
    IO Unit := do
  IO.sleep 300
  let now ← changeTimes watcher.settings.output watcher.root
  if now = before then watchLoop watcher before
  else
    let changed := (now.filter fun entry ↦ !before.contains entry) ++
      before.filter fun entry ↦ !now.any fun other ↦ other.1 = entry.1
    discard (present (← Watch.again watcher (← timeNow) (changed.map Prod.fst)))
    watchLoop watcher now

def watch (request : Settings.Request) : IO UInt32 := do
  match ← (Watch.start request : CommandM IO Watch.Watcher).run with
  | .error error => present (Watch.refused error)
  | .ok watcher =>
    discard (present (← Watch.first watcher (← timeNow)))
    watchLoop watcher (← changeTimes watcher.settings.output watcher.root)
    return 0

/-! ### Arguments -/

def helpLines : List String := [
  "Generate type-safe PostHog wrappers from JSON Schema event definitions",
  "",
  "Usage: hogtyped [-v] <command>",
  "",
  "Commands:",
  "  generate    [-s <pattern>] [-o <file>] [-c <name>] [-m <mode>] [-l <language>]",
  "  init        [--force]",
  "  validate    [-s <pattern>]",
  "  watch       [-s <pattern>] [-o <file>] [-c <name>] [-m <mode>] [-l <language>]",
  "  completion  <shell>",
  "  help"]

def usageReport (usage : Usage) : Report :=
  match usage with
  | .help => { output := helpLines }
  | .version => { output := ["hogtyped 0.1.0"] }
  | .helpForMissingCommand => { exitCode := usage.exitCode, errors := helpLines }
  | .missingCommand => refused "a command is required"
  | .unknownCommand => refused "unrecognized command"
  | .unknownArgument => refused "unexpected argument"
  | .missingValue => refused "a value is required for an option"
  | .unexpectedValue => refused "a value for an option that takes none"
  | .missingArgument => refused "a required argument is missing"
  | .repeatedArgument => refused "an option is given more than once"
where
  refused (reason : String) : Report :=
    { exitCode := usage.exitCode
      errors := ["error: " ++ reason, "", "For more information, try '--help'."] }

end EventSchema.Program

def main (arguments : List String) : IO UInt32 := do
  match CommandLine.parse arguments with
  | .error usage => Program.present (Program.usageReport usage)
  | .ok ⟨.watch request, _⟩ => Program.watch request
  | .ok ⟨invocation, _⟩ => Program.present (← invocation.run (← Program.timeNow))
