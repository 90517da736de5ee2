import EventSchema.Artifact
import EventSchema.Discovery
import EventSchema.Watch

/-!
# Generating an artifact

The artifact is rendered as a whole before anything is written. It is written beside its place
first and then moved there, so that a run that fails leaves what was there before.
-/

set_option autoImplicit false

namespace EventSchema

variable {m : Type → Type} [Monad m] [FileSystem m]

/-- The path beside an output where it is written first. -/
def temporaryPath (output : Path) (name : String) : Path :=
  output.directory.join ⟨name ++ ".hogtyped.tmp"⟩

/-- Writes a file in one step for all who look at it. -/
def writeAtomic (output : Path) (content : String) : CommandM m Unit := do
  let directory := output.directory
  if directory.text ≠ "" then
    if !(← (FileSystem.pathExists directory : m Bool)) then
      CommandM.attempt (FileSystem.createDirectories directory)
  match output.fileName? with
  | none => throw (.outputWithoutName output)
  | some name =>
    let temporary := temporaryPath output name
    let written : Except Fault Unit ← (FileSystem.write temporary content : m _)
    let moved ← match written with
      | .ok _ => (FileSystem.rename temporary output : m _)
      | .error fault => pure (.error fault)
    match moved with
    | .ok _ => return
    | .error fault =>
      let _ ← (FileSystem.remove temporary : m (Except Fault Unit))
      throw (.file fault)

/-- What a run has done. -/
structure Generated where
  output : Path
  eventCount : Nat
  fileCount : Nat
  missing : List MissingReference
  overwrittenCount : Nat
deriving DecidableEq, Repr

/-- Generates the artifact that the settings describe; `time` goes into its header. -/
def generate (settings : Settings) (time : String) : CommandM m Generated := do
  let files ← discover settings.pattern
  let set ← loadFiles files
  let plan ← CommandM.ofExcept .compile (Plan.ofEventSet set {
    className := settings.className
    mode := settings.mode
    generatedAt := time })
  CommandM.ofExcept (fun problem ↦ .settings (.className settings.className problem))
    (ClassName.checkAgainst settings.className plan.events)
  writeAtomic settings.output (plan.render settings.language)
  return {
    output := settings.output
    eventCount := plan.events.length
    fileCount := files.length
    missing := set.missing
    overwrittenCount := set.overwritten.length }

/-! ### Watching -/

/-- Whether a change of a file asks for a new artifact: it is a schema file, and not the artifact
itself. -/
def isRelevantChange (path output : Path) : m Bool := do
  if Watch.isSchemaFile path then
    let canonical (path : Path) : m Path := return (← FileSystem.canonical? path).getD path
    return !(← canonical path).same (← canonical output)
  else return false

end EventSchema
