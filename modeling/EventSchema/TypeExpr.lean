import EventSchema.Fragment

/-!
# Static types

The types that fragments project to, independent of any target language. An object is an open map:
its properties become fields of the event type only at the top.
-/

set_option autoImplicit false

namespace EventSchema

inductive TypeExpr where
  | any
  | string
  | float
  | integer
  | boolean
  /-- One of the values, in order of declaration. -/
  | literal (values : List Json)
  | list (item : TypeExpr)
  | map
  | optional (type : TypeExpr)
deriving Repr, Inhabited

namespace TypeExpr

def isOptional : TypeExpr → Bool
  | .optional _ => true
  | _ => false

/-- The type without the option to leave it out. -/
def required : TypeExpr → TypeExpr
  | .optional type => type
  | type => type

def ofPrimitive (kind : PrimitiveKind) (choices : Option (List Json)) : TypeExpr :=
  match kind, choices with
  | .string, some (choice :: more) => .literal (choice :: more)
  | .string, _ => .string
  | .number, _ => .float
  | .integer, _ => .integer
  | .boolean, _ => .boolean

mutual

/-- The type of a resolved fragment. -/
def ofFragment : Fragment → TypeExpr
  | .primitive kind choices _ => ofPrimitive kind choices
  | .array items _ => .list (ofPart items)
  | .object .. => .map
  | .any _ | .reference _ | .composition _ => .any

def ofPart : Option Fragment → TypeExpr
  | none => .any
  | some fragment => ofFragment fragment

end

end TypeExpr

/-- A field of an event type. Its type is optional exactly if it is not required. -/
structure Field where
  name : String
  type : TypeExpr
  required : Bool
  description : Option String
deriving Repr, Inhabited

namespace Field

/-- The field for a property, given the required names. -/
def ofProperty (required : List String) (name : String) (fragment : Fragment) : Field :=
  let type := TypeExpr.ofFragment fragment
  let isRequired := required.contains name
  { name
    type := if isRequired then type else .optional type
    required := isRequired
    description := fragment.description?.filter (· ≠ "") }

end Field

end EventSchema
