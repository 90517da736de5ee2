import EventSchema.Command.Report
import EventSchema.Json.Printer

/-!
# Setting up a project

Creates the directory of schemas with an example in it.
-/

set_option autoImplicit false

namespace EventSchema.Init

variable {m : Type → Type} [Monad m] [FileSystem m]

def directory : Path := ⟨"schemas"⟩

def examplePath : Path := ⟨"schemas/events.schema.json"⟩

def stringSchema : Json := .object [("type", .string "string")]

def uriSchema : Json := .object [("type", .string "string"), ("format", .string "uri")]

def exampleSchema : Json := .object [
  ("$schema", .string "http://json-schema.org/draft-07/schema#"),
  ("definitions", .object [
    ("PageView", .object [
      ("type", .string "object"),
      ("properties", .object [
        ("url", uriSchema), ("title", stringSchema), ("referrer", uriSchema)]),
      ("required", .array [.string "url"])])]),
  ("events", .object [
    ("page_viewed", .object [("$ref", .string "#/definitions/PageView")])])]

/-- What was created. -/
structure Created where
  directory : Bool
  examples : Bool
deriving DecidableEq, Repr

def create (force : Bool) : CommandM m Created := do
  let newDirectory := !(← (FileSystem.pathExists directory : m Bool))
  if newDirectory then CommandM.attempt (FileSystem.createDirectories directory)
  let newExample := force || !(← (FileSystem.pathExists examplePath : m Bool))
  if newExample then
    CommandM.attempt (FileSystem.write examplePath (exampleSchema.pretty ++ "\n"))
  return ⟨newDirectory, newExample⟩

def report (created : Created) : Report where
  output :=
    ["✓ Project initialized"] ++
    (if created.directory then ["  Created schemas/"] else []) ++
    [if created.examples then "  Created schemas/events.schema.json"
      else "  Kept existing schemas/events.schema.json (use --force to overwrite)",
      "",
      "Next steps:",
      "  1. Edit your schemas in schemas/events.schema.json",
      "  2. Validate them: hogtyped validate",
      "  3. Generate the wrapper: hogtyped generate"]

def run (force : Bool) : m Report := (create force).report "Initialization failed" report

end EventSchema.Init
