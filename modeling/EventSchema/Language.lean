import EventSchema.Path
import EventSchema.Text.Blank

/-!
# Target languages

What an artifact can be written in, and how the choice is made: by name, else by the extension of
the output file.
-/

set_option autoImplicit false

namespace EventSchema

inductive Language where
  | python
  | typescript
  | json
deriving DecidableEq, Repr

namespace Language

def name : Language → String
  | .python => "python"
  | .typescript => "typescript"
  | .json => "json"

/-- The extension of generated files. -/
def extension : Language → String
  | .python => "py"
  | .typescript => "ts"
  | .json => "json"

def defaultOutput (language : Language) : String := "./posthog_generated." ++ language.extension

def lower (text : List Char) : String := String.ofList (text.map Text.lowerAscii)

/-- Reads a name or its short form, in any case and between blanks. -/
def ofName? (name : String) : Option Language :=
  match lower (Text.trim name.toList) with
  | "python" | "py" => some .python
  | "typescript" | "ts" => some .typescript
  | "json" => some .json
  | _ => none

def ofExtension? (output : Path) : Option Language :=
  match output.extension?.map fun extension ↦ lower extension.toList with
  | some "py" | some "pyi" => some .python
  | some "ts" | some "mts" | some "cts" => some .typescript
  | some "json" => some .json
  | _ => none

/-- The named language, else that of the output file, else Python. An unknown name is returned. -/
def choose (name : Option String) (output : Option Path) : Except String Language :=
  match name with
  | some name => ((ofName? name).map .ok).getD (.error name)
  | none => .ok ((output.bind ofExtension?).getD .python)

end Language

end EventSchema
