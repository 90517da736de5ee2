import EventSchema.Binary64.Reader
import EventSchema.Json.Printer
import EventSchema.Yaml.Node

/-!
# YAML nodes as JSON

Plain scalars are typed by the core schema or by their tag. A tag that its scalar does not satisfy
makes a bad node, and so does an alias to a node that is still open; bad nodes vanish from the
collections that hold them.
-/

set_option autoImplicit false

namespace EventSchema.Yaml

/-! ### Scalars -/

inductive Scalar where
  | bad
  | null
  | bool (value : Bool)
  | integer (value : Int)
  | real (text : List Char)
  | string (text : List Char)
deriving DecidableEq, Repr

namespace Scalar

/-- The value of an optional sign and digits of the base, if it fits 64 bits. -/
def integer? (base : Nat) (text : List Char) : Option Int := do
  let (negative, digits) := match text with
    | '+' :: rest => (false, rest)
    | '-' :: rest => (true, rest)
    | rest => (false, rest)
  let values ← digits.mapM hexValue?
  if values.isEmpty || values.any (base ≤ ·) then none
  let magnitude := values.foldl (fun n digit ↦ n * base + digit) 0
  let value : Int := if negative then -magnitude else magnitude
  let limit : Int := Nat.pow 2 63
  if -limit ≤ value ∧ value < limit then some value else none

def isReal (text : List Char) : Bool :=
  [".inf", ".Inf", ".INF", "+.inf", "+.Inf", "+.INF", "-.inf", "-.Inf", "-.INF", ".nan", "NaN",
    ".NAN"].any (text = ·.toList) || (Binary64.read? text).isSome

def isNull (text : List Char) : Bool := text = "~".toList || text = "null".toList

def bool? (text : List Char) : Option Bool :=
  if text = "true".toList then some true
  else if text = "false".toList then some false
  else none

/-- The integer that a plain scalar spells: with a base, with a plus sign, or just so. -/
def plainInteger? (text : List Char) : Option Int :=
  let marked := match text with
    | '0' :: 'x' :: digits => integer? 16 digits
    | '0' :: 'o' :: digits => integer? 8 digits
    | '+' :: rest => integer? 10 rest
    | _ => none
  marked.or (integer? 10 text)

def ofPlain (text : List Char) : Scalar :=
  match plainInteger? text, bool? text with
  | some value, _ => .integer value
  | none, some value => .bool value
  | none, none =>
    if isNull text then .null else if isReal text then .real text else .string text

/-- A plain scalar under a tag of the core schema. -/
def ofTagged (suffix text : List Char) : Scalar :=
  if suffix = "bool".toList then ((bool? text).map .bool).getD .bad
  else if suffix = "int".toList then ((integer? 10 text).map .integer).getD .bad
  else if suffix = "float".toList then if isReal text then .real text else .bad
  else if suffix = "null".toList then if isNull text then .null else .bad
  else .string text

/-- Only plain scalars are typed; a tag that is not of the core schema makes a string. -/
def ofNode (plain : Bool) (tag : Option Tag) (text : List Char) : Scalar :=
  if !plain then .string text
  else match tag with
    | none => ofPlain text
    | some tag => if tag.handle = ['!', '!'] then ofTagged tag.suffix text else .string text

def toJson? : Scalar → Option Json
  | .bad => none
  | .null => some .null
  | .bool value => some (.bool value)
  | .integer value => some (.number (.integer value))
  | .real text =>
    match Binary64.read? text with
    | some (.finite value) => some (.number (.float value))
    | _ => some (.string (String.ofList text))
  | .string text => some (.string (String.ofList text))

end Scalar

/-! ### Keys -/

/-- A scalar that may be the key of a member. -/
inductive Key where
  | string (text : List Char)
  | real (text : List Char)
  | integer (value : Int)
  | bool (value : Bool)
deriving DecidableEq, Repr

def Key.text : Key → String
  | .string text => String.ofList text
  | .real text => String.ofList text
  | .integer value => String.ofList (intText value)
  | .bool value => if value then "true" else "false"

def Scalar.key? : Scalar → Option Key
  | .string text => some (.string text)
  | .real text => some (.real text)
  | .integer value => some (.integer value)
  | .bool value => some (.bool value)
  | .bad | .null => none

/-! ### Collections -/

/-- What a node is as a value and as a key. A bad node has no value. -/
structure View where
  value? : Option Json
  key? : Option Key := none

/-- A repeated key moves to the end. -/
def putEntry (entries : List (Key × View)) (key : Key) (value : View) : List (Key × View) :=
  entries.filter (·.1 ≠ key) ++ [(key, value)]

/-- Pairs keys and values that come in turn. A bad key is passed over, so that the node after it
is the key; where a key is null or a collection, its value is dropped with it. -/
def pairUp (entries : List (Key × View)) : Option View → List View → List (Key × View)
  | _, [] => entries
  | none, view :: rest =>
    if view.value?.isNone then pairUp entries none rest else pairUp entries (some view) rest
  | some key, value :: rest =>
    match key.key? with
    | some key => pairUp (putEntry entries key value) none rest
    | none => pairUp entries none rest

/-- The members for keys and values that come in turn. Keys that print alike become one. -/
def membersOf (views : List View) : Fields :=
  (pairUp [] none views).foldl
    (fun members (key, view) ↦ Entries.insertSome members key.text view.value?) []

namespace Node

mutual

def view : Node → View
  | .unfinished => ⟨none, none⟩
  | .empty => ⟨some .null, none⟩
  | .scalar plain tag text =>
    let scalar := Scalar.ofNode plain tag text
    ⟨scalar.toJson?, scalar.key?⟩
  | .sequence items => ⟨some (.array ((viewItems items).filterMap View.value?)), none⟩
  | .mapping entries => ⟨some (.object (membersOf (viewEntries entries))), none⟩

def viewItems : List Node → List View
  | [] => []
  | item :: rest => item.view :: viewItems rest

/-- Keys and values in turn. -/
def viewEntries : List (Node × Node) → List View
  | [] => []
  | (key, value) :: rest => key.view :: value.view :: viewEntries rest

end

def toJson? (node : Node) : Option Json := node.view.value?

end Node

end EventSchema.Yaml
