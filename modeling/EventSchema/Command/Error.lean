import EventSchema.CompileError
import EventSchema.FileSystem
import EventSchema.Glob
import EventSchema.Settings

/-!
# Errors of commands

What can stop a command, and how it is told.
-/

set_option autoImplicit false

namespace EventSchema

/-- A count and a noun in the number that goes with it. -/
def countOf (count : Nat) (noun : String) : String :=
  s!"{count} {noun}" ++ if count = 1 then "" else "s"

inductive CommandError where
  | settings (error : SettingsError)
  | configUnreadable (fault : Fault)
  | configInvalid (problem : Config.Problem)
  | patternInvalid (pattern : String) (problem : Glob.Problem)
  | unreadable (path : Path) (fault : Fault)
  | outputWithoutName (path : Path)
  | compile (error : CompileError)
  | file (fault : Fault)
  | problems (count : Nat)
  | unresolved (count : Nat)
  | noDirectory (path : Path)
  | shellMissing
  | unsupportedShell (name : String)
deriving DecidableEq, Repr

namespace CommandError

def shells : String := "bash, zsh, fish, powershell, elvish"

def message : CommandError → String
  | settings error => error.message
  | configUnreadable fault => s!"Failed to read config file: {fault.message}"
  | configInvalid problem =>
    s!"Failed to parse config file {Config.fileName}: {problem.message}"
  | patternInvalid pattern problem =>
    s!"Invalid schema pattern '{pattern}': {problem.message}"
  | unreadable path fault => s!"Failed to read {path.text}: {fault.message}"
  | outputWithoutName path => s!"Invalid output path: {path.text}"
  | compile error => s!"Compiler error: {error.message}"
  | file fault => s!"IO error: {fault.message}"
  | problems count => countOf count "problem" ++ " found in schema files"
  | unresolved count => countOf count "unresolved reference"
  | noDirectory path => s!"Schema directory not found: {path.text}"
  | shellMissing => s!"Shell name is required. Supported shells: {shells}"
  | unsupportedShell name => s!"Unsupported shell: {name}. Supported shells: {shells}"

end CommandError

/-- Work on files that a command does. -/
abbrev CommandM (m : Type → Type) := ExceptT CommandError m

namespace CommandM

variable {m : Type → Type} [Monad m]

/-- An operation on files that fails with its fault. -/
def attempt {α : Type} (operation : m (Except Fault α))
    (error : Fault → CommandError := .file) : CommandM m α :=
  ExceptT.mk do return (← operation).mapError error

def ofExcept {α ε : Type} (error : ε → CommandError) : Except ε α → CommandM m α
  | .ok value => return value
  | .error cause => throw (error cause)

end CommandM

end EventSchema
