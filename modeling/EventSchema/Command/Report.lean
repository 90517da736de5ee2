import EventSchema.Command.Error

/-!
# Reports

What a command prints, line by line, and the code that it exits with.
-/

set_option autoImplicit false

namespace EventSchema

structure Report where
  exitCode : Nat := 0
  output : List String := []
  errors : List String := []
deriving DecidableEq, Repr

namespace Report

def text (lines : List String) : String := String.join (lines.map fun line ↦ line ++ "\n")

def outputText (report : Report) : String := text report.output

def errorText (report : Report) : String := text report.errors

/-- A failure under a heading, below the given lines. -/
def failed (heading : String) (error : CommandError) (before : List String := []) : Report where
  exitCode := 1
  errors := before ++ ["✗ " ++ heading, "  Error: " ++ error.message]

end Report

/-- Reports on work that may fail. -/
def CommandM.report {m : Type → Type} [Monad m] {α : Type} (work : CommandM m α)
    (heading : String) (succeeded : α → Report) : m Report := do
  match ← work.run with
  | .ok value => return succeeded value
  | .error error => return Report.failed heading error

end EventSchema
