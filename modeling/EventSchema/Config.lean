import EventSchema.Text.Blank
import EventSchema.Yaml.Node

/-!
# Project configuration

A mapping of known keys to scalars. Scalars count by their spelling, whatever they would be typed
as, except that null leaves its key unset.
-/

set_option autoImplicit false

namespace EventSchema

structure Config where
  schemas : Option String := none
  output : Option String := none
  className : Option String := none
  mode : Option String := none
  language : Option String := none
deriving DecidableEq, Repr, Inhabited

namespace Config

def fileName : String := "hogtyped.config.yaml"

/-- Why a text is not a configuration. -/
inductive Problem where
  | yaml (problem : Yaml.Problem)
  | severalDocuments
  | notMapping
  | keyNotScalar
  | unknownKey (key : String)
  | repeatedKey (key : String)
  | valueNotScalar (key : String)
deriving DecidableEq, Repr

def Problem.message : Problem → String
  | .yaml problem => s!"unexpected text at line {problem.line + 1} column {problem.column + 1}"
  | .severalDocuments => "more than one document"
  | .notMapping => "expected a mapping"
  | .keyNotScalar => "expected a key"
  | .unknownKey key => s!"unknown key {key}"
  | .repeatedKey key => s!"repeated key {key}"
  | .valueNotScalar key => s!"expected a scalar for {key}"

def set? (config : Config) (key : String) (value : Option String) : Option Config :=
  match key with
  | "schemas" => some { config with schemas := value }
  | "output" => some { config with output := value }
  | "className" => some { config with className := value }
  | "mode" => some { config with mode := value }
  | "language" => some { config with language := value }
  | _ => none

def isNull (text : List Char) : Bool :=
  ["", "~", "null", "Null", "NULL"].contains (String.ofList text)

/-- The spelling of a scalar, none for a null; a collection is no setting. -/
def setting? : Yaml.Node → Option (Option String)
  | .empty => some none
  | .scalar true none text =>
    some (if isNull text then none else some (String.ofList text))
  | .scalar true (some tag) text =>
    some (if tag.suffix = "null".toList && isNull text then none else some (String.ofList text))
  | .scalar false _ text => some (some (String.ofList text))
  | .unfinished | .sequence _ | .mapping _ => none

/-- Takes the entries in turn; `seen` are the keys before. -/
def ofEntries (config : Config) (seen : List String) :
    List (Yaml.Node × Yaml.Node) → Except Problem Config
  | [] => .ok config
  | (.scalar _ _ text, node) :: rest =>
    let key := String.ofList text
    if seen.contains key then .error (.repeatedKey key)
    else match setting? node with
      | none => .error (.valueNotScalar key)
      | some value =>
        match config.set? key value with
        | none => .error (.unknownKey key)
        | some config => ofEntries config (key :: seen) rest
  | _ :: _ => .error .keyNotScalar

def ofNode : Yaml.Node → Except Problem Config
  | .empty => .ok {}
  | .mapping entries => ofEntries {} [] entries
  | _ => .error .notMapping

/-- Reads a configuration; a text without a document sets nothing. -/
def parse (text : String) : Except Problem Config :=
  if text.toList.all Text.isBlank then .ok {}
  else match Yaml.documents text.toList with
    | .error problem => .error (.yaml problem)
    | .ok [] => .ok {}
    | .ok [root] => ofNode root
    | .ok _ => .error .severalDocuments

end Config

end EventSchema
