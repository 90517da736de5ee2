import EventSchema.Text

/-!
# Validation modes

How a client treats an event that fails validation: it refuses the event, it sends a warning ahead
of it, or it does not validate at all.
-/

set_option autoImplicit false

namespace EventSchema

inductive Mode where
  | strict
  | warning
  | disabled
deriving DecidableEq, Repr

namespace Mode

instance : Inhabited Mode := ⟨.warning⟩

def name : Mode → String
  | .strict => "strict"
  | .warning => "warning"
  | .disabled => "disabled"

/-- The name of the generated enumeration member. -/
def constant : Mode → String
  | .strict => "STRICT"
  | .warning => "WARNING"
  | .disabled => "DISABLED"

/-- Reads a name in any case; an unknown one is returned in lower case. -/
def ofName (name : String) : Except String Mode :=
  let lower := String.ofList (name.toList.map Text.lowerAscii)
  match [strict, warning, disabled].find? fun mode ↦ mode.name = lower with
  | some mode => .ok mode
  | none => .error lower

def unknownMessage (name : String) : String :=
  s!"Invalid validation mode '{name}'. Expected one of: strict, warning, disabled"

theorem ofName_name (mode : Mode) : ofName mode.name = .ok mode := by
  cases mode <;> cbv

end Mode

end EventSchema
