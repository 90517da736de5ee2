import EventSchema.Command.Report
import EventSchema.Generation

/-!
# The command that generates an artifact
-/

set_option autoImplicit false

namespace EventSchema.Generate

variable {m : Type → Type} [Monad m] [FileSystem m]

/-- Settles what to generate and generates it. -/
def work (request : Settings.Request) (time : String) : CommandM m (Settings × Generated) := do
  let config ← readConfig
  let settings ← CommandM.ofExcept .settings (Settings.resolve request config)
  return (settings, ← generate settings time)

def report (settings : Settings) (generated : Generated) : Report where
  output :=
    [s!"✓ Generated {settings.className} wrapper at {generated.output.text}",
      "  " ++ countOf generated.eventCount "event" ++ " from " ++
        countOf generated.fileCount "schema file" ++ s!" ({settings.language.name})",
      s!"  Validation mode: {settings.mode.name}"] ++
    (if generated.overwrittenCount = 0 then []
      else [s!"  Warning: {generated.overwrittenCount} duplicate event name(s); " ++
        "the last declaration was kept"]) ++
    (if generated.missing.isEmpty then []
      else (s!"  Warning: {generated.missing.length} unresolved reference(s); " ++
          "affected properties are untyped") ::
        generated.missing.map fun missing ↦ "    - " ++ missing.message)

def run (request : Settings.Request) (time : String) : m Report :=
  (work request time).report "Generation failed" fun (settings, generated) ↦
    report settings generated

end EventSchema.Generate
