import EventSchema.Command.Report
import EventSchema.Generation

/-!
# The command that watches schema files

Watching starts only if the settings are sound and the directory to watch is there. The artifact is
then generated once, and again after every relevant change.
-/

set_option autoImplicit false

namespace EventSchema.Watch

variable {m : Type → Type} [Monad m] [FileSystem m]

/-- What is watched, and what is generated on a change. -/
structure Watcher where
  settings : Settings
  root : Path
deriving DecidableEq, Repr

def start (request : Settings.Request) : CommandM m Watcher := do
  let config ← readConfig
  let settings ← CommandM.ofExcept .settings (Settings.resolve request config)
  let root := Watch.root ⟨settings.pattern⟩
  if ← (FileSystem.isDirectory root : m Bool) then return ⟨settings, root⟩
  else throw (.noDirectory root)

/-- The report on a watch that does not start. -/
def refused (error : CommandError) : Report := Report.failed "Watch mode failed" error

/-- Generates the artifact and tells so. -/
def regenerate (watcher : Watcher) (time : String) : CommandM m Report := do
  let generated ← generate watcher.settings time
  return {
    output :=
      (s!"✓ Regenerated {generated.output.text} (" ++
        countOf generated.eventCount "event" ++ ")") ::
        generated.missing.map fun missing ↦ "  Warning: " ++ missing.message }

/-- Tells what is watched, and generates the artifact for the first time. -/
def first (watcher : Watcher) (time : String) : m Report := do
  let heading := ["Starting watch mode...",
    s!"Watching {watcher.root.text} for schema changes"]
  let waiting := ["", "Watching for changes... (Press Ctrl+C to stop)"]
  match ← (regenerate watcher time).run with
  | .ok report => return { output := heading ++ report.output ++ waiting }
  | .error error => return {
      output := heading ++ waiting
      errors := ["  Warning: Initial generation failed: " ++ error.message] }

/-- Generates the artifact again after changes of files. -/
def again (watcher : Watcher) (time : String) (changed : List Path) : m Report := do
  let heading := changed.flatMap fun path ↦ ["", s!"📝 Schema changed: {path.text}"]
  match ← (regenerate watcher time).run with
  | .ok report => return { output := heading ++ report.output }
  | .error error => return {
      output := heading
      errors := ["  ✗ Generation failed: " ++ error.message] }

end EventSchema.Watch
