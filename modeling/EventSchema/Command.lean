import EventSchema.Command.Arguments
import EventSchema.Command.Completion
import EventSchema.Command.Generate
import EventSchema.Command.Init
import EventSchema.Command.Validate
import EventSchema.Command.Watch

/-!
# Running a command

Every command works on files and ends in a report. Watching ends only if it does not start.
-/

set_option autoImplicit false

namespace EventSchema.Invocation

variable {m : Type → Type} [Monad m] [FileSystem m]

/-- Runs a command to its end, a watch up to its first artifact. -/
def run (invocation : Invocation) (time : String) : m Report :=
  match invocation with
  | .generate request => Generate.run request time
  | .init force => Init.run force
  | .validate schemas => Validate.run schemas
  | .completion shell => return Completion.run shell
  | .watch request => do
    match ← (Watch.start request : CommandM m Watch.Watcher).run with
    | .ok watcher => Watch.first watcher time
    | .error error => return Watch.refused error

end EventSchema.Invocation
