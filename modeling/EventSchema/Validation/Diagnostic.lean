import EventSchema.Json.Printer

/-!
# Diagnostics

What is shown of a problem in a file, and how several of them are laid out.
-/

set_option autoImplicit false

namespace EventSchema

structure Diagnostic where
  file : String
  line : Option Nat := none
  column : Option Nat := none
  message : String
  path : Option String := none
  suggestion : Option String := none
deriving DecidableEq, Repr

namespace Diagnostic

/-- The file, with the line and the column as far as they are known. -/
def location (diagnostic : Diagnostic) : String :=
  let numberText (n : Nat) : String := ":" ++ String.ofList (decimalDigits n)
  match diagnostic.line with
  | none => diagnostic.file
  | some line => diagnostic.file ++ numberText line ++ (diagnostic.column.map numberText).getD ""

def lines (diagnostic : Diagnostic) : List String :=
  [diagnostic.location, "  Error: " ++ diagnostic.message] ++
  (diagnostic.path.map fun path ↦ "  Path: " ++ path).toList ++
  (diagnostic.suggestion.map fun suggestion ↦ "  Suggestion: " ++ suggestion).toList ++ [""]

/-- All diagnostics below a heading; nothing if there are none. -/
def format (diagnostics : List Diagnostic) : String :=
  if diagnostics.isEmpty then ""
  else "\n".intercalate ("✗ Validation failed\n" :: diagnostics.flatMap lines)

end Diagnostic

end EventSchema
