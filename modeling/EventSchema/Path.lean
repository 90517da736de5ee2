import EventSchema.Text

/-!
# Paths

A path keeps its spelling; what it denotes is its list of components. Repeated and trailing
slashes vanish from the components, and so does a dot that is not the first of a relative path.
Two paths with the same components are the same place however they are spelled.
-/

set_option autoImplicit false

namespace EventSchema

structure Path where
  text : String
deriving DecidableEq, Repr, Inhabited

namespace Path

/-- In the order in which components compare. -/
inductive Component where
  | root
  | here
  | up
  | name (text : String)
deriving DecidableEq, Repr

namespace Component

def lt : Component → Component → Bool
  | .name a, .name b => a < b
  | a, b => a.ctorIdx < b.ctorIdx

def chars : Component → List Char
  | .root => ['/']
  | .here => ['.']
  | .up => ['.', '.']
  | .name text => text.toList

def ofChars (part : List Char) : Component :=
  if part = ['.'] then .here
  else if part = ['.', '.'] then .up
  else .name (String.ofList part)

end Component

/-- The parts between slashes as components; the dots after the first part are dropped. -/
def partComponents (absolute : Bool) (parts : List (List Char)) : List Component :=
  match parts with
  | [] => []
  | first :: rest =>
    let kept (part : List Char) : Bool := !part.isEmpty && part != ['.']
    let head := if absolute then kept first else !first.isEmpty
    (if head then [Component.ofChars first] else []) ++ (rest.filter kept).map Component.ofChars

def componentsOf (text : List Char) : List Component :=
  match text with
  | '/' :: rest => .root :: partComponents true (Text.split (· = '/') rest)
  | text => partComponents false (Text.split (· = '/') text)

def components (path : Path) : List Component := componentsOf path.text.toList

/-- The plain spelling of components. -/
def ofComponents (components : List Component) : Path :=
  match components with
  | .root :: rest => ⟨String.ofList ('/' :: Text.join ['/'] (rest.map Component.chars))⟩
  | components => ⟨String.ofList (Text.join ['/'] (components.map Component.chars))⟩

/-- The order of paths: by component. -/
def lt (a b : Path) : Bool := go a.components b.components
where
  go : List Component → List Component → Bool
    | _, [] => false
    | [], _ :: _ => true
    | x :: xs, y :: ys => if x.lt y then true else if y.lt x then false else go xs ys

/-- Whether two spellings have the same components. -/
def same (a b : Path) : Bool := a.components == b.components

def isAbsolute (path : Path) : Bool := path.text.toList.head? == some '/'

/-- The second path seen from the first. -/
def join (base path : Path) : Path :=
  if path.isAbsolute || base.text = "" then path
  else if Text.endsWith ['/'] base.text.toList then ⟨base.text ++ path.text⟩
  else ⟨base.text ++ "/" ++ path.text⟩

/-- The path without its last component; none for a root or an empty path. -/
def parent? (path : Path) : Option Path :=
  match path.components.getLast? with
  | none | some .root => none
  | some _ => some (ofComponents path.components.dropLast)

/-- The directory of a document. -/
def directory (path : Path) : Path := path.parent?.getD ⟨""⟩

/-- Whether a part between slashes is no component. -/
def isIdle (part : List Char) : Bool := part.isEmpty || part = ['.']

/-- Drops the parts at the end that are no components; the parts are in reverse. A dot that is all
of a relative path is one. -/
def dropIdle (absolute : Bool) : List (List Char) → List (List Char)
  | [] => []
  | [part] => if part.isEmpty || (absolute && isIdle part) then [] else [part]
  | part :: before => if isIdle part then dropIdle absolute before else part :: before

/-- The directory as it is spelled in the path. -/
def spelledDirectory (path : Path) : Path :=
  let (start, body) := match path.text.toList with
    | '/' :: rest => (['/'], rest)
    | text => ([], text)
  match dropIdle path.isAbsolute (Text.split (· = '/') body).reverse with
  | [] => ⟨""⟩
  | _ :: before =>
    ⟨String.ofList (start ++ Text.join ['/'] (dropIdle path.isAbsolute before).reverse)⟩

def fileName? (path : Path) : Option String :=
  match path.components.getLast? with
  | some (.name text) => some text
  | _ => none

/-- What follows the last dot of the file name, unless that dot is its first character. -/
def extension? (path : Path) : Option String := do
  let name ← path.fileName?
  match (Text.split (· = '.') name.toList).reverse with
  | extension :: before :: more =>
    if more.isEmpty && before.isEmpty then none else some (String.ofList extension)
  | _ => none

/-! ### Lexical normal form -/

/-- Adds a component to a normal form whose components are in reverse. -/
def normalStep (before : List Component) : Component → List Component
  | .here => before
  | .up =>
    match before with
    | .name _ :: rest => rest
    | .root :: _ => before
    | _ => .up :: before
  | component => component :: before

def normalComponents (components : List Component) : List Component :=
  (components.foldl normalStep []).reverse

/-- Without dots, and with `..` only in front of a relative path. -/
def normalize (path : Path) : Path := ofComponents (normalComponents path.components)

end Path

end EventSchema
