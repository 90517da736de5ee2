import EventSchema.ClassName
import EventSchema.Config
import EventSchema.Language

/-!
# Generation settings

What a run generates, from what, and where to. A request comes before the configuration, and the
configuration before the default. The language is settled first, then the class name, then the
mode.
-/

set_option autoImplicit false

namespace EventSchema

/-- What a caller asks for; all of it may be left open. -/
structure Settings.Request where
  schemas : Option String := none
  output : Option String := none
  className : Option String := none
  mode : Option String := none
  language : Option String := none
deriving DecidableEq, Repr, Inhabited

structure Settings where
  pattern : String
  output : Path
  className : String
  mode : Mode
  language : Language
deriving DecidableEq, Repr

inductive SettingsError where
  | unsupportedLanguage (name : String)
  | className (name : String) (problem : ClassName.Problem)
  | unknownMode (name : String)
deriving DecidableEq, Repr

def SettingsError.message : SettingsError → String
  | .unsupportedLanguage name =>
    s!"Unsupported language: {name}. Supported languages: python, typescript, json"
  | .className name problem => problem.message name
  | .unknownMode name => Mode.unknownMessage name

namespace Settings

def defaultPattern : String := "./schemas/*.schema.json"

def defaultClassName : String := "PostHog"

def resolve (request : Request) (config : Config) : Except SettingsError Settings := do
  let output := request.output.or config.output
  let language ← (Language.choose (request.language.or config.language)
    (output.map Path.mk)).mapError .unsupportedLanguage
  let className := (request.className.or config.className).getD defaultClassName
  (ClassName.check className).mapError (.className className)
  let mode ← match request.mode.or config.mode with
    | some name => (Mode.ofName name).mapError .unknownMode
    | none => pure .warning
  return {
    pattern := (request.schemas.or config.schemas).getD defaultPattern
    output := ⟨output.getD language.defaultOutput⟩
    className
    mode
    language }

end Settings

end EventSchema
