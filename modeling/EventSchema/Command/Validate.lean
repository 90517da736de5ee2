import EventSchema.Command.Report
import EventSchema.Discovery
import EventSchema.Validation

/-!
# The command that validates schema files

Every file is parsed, and all that parse are validated together. Only when nothing was found are
the events resolved, which also finds cycles and what is missing in other files.
-/

set_option autoImplicit false

namespace EventSchema.Validate

variable {m : Type → Type} [Monad m] [FileSystem m]

/-- What is told on the way, besides the result. -/
abbrev ValidateM (m : Type → Type) := CommandM (StateT (List String) m)

def tell (lines : List String) : ValidateM m Unit := modify (· ++ lines)

def lift {α : Type} (work : CommandM m α) : ValidateM m α :=
  ExceptT.mk (StateT.lift work.run)

/-- The pattern that is asked for, else that of the configuration, else the default one. -/
def patternOf (asked : Option String) : CommandM m String :=
  match asked with
  | some pattern => return pattern
  | none => return (← readConfig).schemas.getD Settings.defaultPattern

/-- The documents of all files that can be parsed; failures are told and counted. -/
def readAll : List Path → ValidateM m (List NamedDocument × Nat)
  | [] => return ([], 0)
  | path :: rest => do
    match ← (readSchema path : CommandM m Json).run with
    | .ok root =>
      let (documents, failures) ← readAll rest
      return ((path.text, root) :: documents, failures)
    | .error error =>
      tell [s!"✗ Failed to parse {path.text}", "  Error: " ++ error.message]
      let (documents, failures) ← readAll rest
      return (documents, failures + 1)

/-- Validates the files and gives their number and the pattern. -/
def work (asked : Option String) : ValidateM m (Nat × String) := do
  let pattern ← lift (patternOf asked)
  let files ← lift (discover pattern)
  if files.isEmpty then return (0, pattern)
  let (documents, failures) ← readAll files
  let findings := Validation.findings Document.metaSchema documents
  if !findings.isEmpty then
    tell [Diagnostic.format (findings.map FileFinding.toDiagnostic)]
  let problems := failures + findings.length
  if 0 < problems then throw (.problems problems)
  let set ← lift (loadFiles files)
  if !set.missing.isEmpty then
    tell (set.missing.map fun missing ↦ "✗ " ++ missing.message)
    throw (.unresolved set.missing.length)
  return (files.length, pattern)

def run (asked : Option String) : m Report := do
  let (result, told) ← ((work asked).run).run []
  match result with
  | .error error => return Report.failed "Validation failed" error told
  | .ok (0, pattern) => return {
      exitCode := 1
      errors := told ++ [
        "✗ No schema files to validate",
        s!"  Pattern '{pattern}' matched no files",
        "  Use --schemas <pattern> or run `hogtyped init` to create an example"] }
  | .ok (count, _) => return {
      output := ["✓ Validation passed (" ++ countOf count "file" ++ ")"]
      errors := told }

end EventSchema.Validate
