import EventSchema.Json

/-!
# Schema fragments

A fragment is one node of a JSON Schema, classified by the keywords that resolution and typing
read. All other keywords are annotations, kept in order. `Fragment.ofJson` classifies and
`Fragment.toJson` writes back: the type first, then the keywords of the class, then the annotations.
-/

set_option autoImplicit false

namespace EventSchema

inductive PrimitiveKind where
  | string
  | number
  | integer
  | boolean
deriving DecidableEq, Repr

namespace PrimitiveKind

def name : PrimitiveKind → String
  | .string => "string"
  | .number => "number"
  | .integer => "integer"
  | .boolean => "boolean"

def ofName? (name : String) : Option PrimitiveKind :=
  if name = "string" then some .string
  else if name = "number" then some .number
  else if name = "integer" then some .integer
  else if name = "boolean" then some .boolean
  else none

theorem ofName?_name (kind : PrimitiveKind) : ofName? kind.name = some kind := by
  cases kind <;> decide

end PrimitiveKind

inductive Fragment where
  /-- JSON of no recognised type, or no schema at all. -/
  | any (value : Json)
  | primitive (kind : PrimitiveKind) (choices : Option (List Json))
    (annotations : List (String × Json))
  | array (items : Option Fragment) (annotations : List (String × Json))
  | object (properties : Option (List (String × Fragment))) (required : Option (List String))
    (additional : Option Fragment) (annotations : List (String × Json))
  | reference (target : String)
  | composition (members : List Fragment)
deriving Repr, Inhabited

abbrev Properties := Entries Fragment

/-- The string under `$ref`, if it is one. -/
def Json.reference? (value : Json) : Option String := (value.get? "$ref").bind Json.asString?

/-- The items under `allOf`, if it is an array. -/
def Json.allOf? (value : Json) : Option (List Json) := (value.get? "allOf").bind Json.asArray?

namespace Fragment

/-- What a reference to nothing resolves to. -/
def absent : Fragment := .any .null

/-! ### Classification -/

/-- What an object is, judging by `$ref`, then `allOf`, then `type`. -/
inductive Shape where
  | reference (target : String)
  | composition
  | object
  | array
  | primitive (kind : PrimitiveKind)
  | any

def shape (members : Fields) : Shape :=
  match (Entries.get? members "$ref").bind Json.asString? with
  | some target => .reference target
  | none =>
    if ((Entries.get? members "allOf").bind Json.asArray?).isSome then .composition
    else match (Entries.get? members "type").bind Json.asString? with
      | some "object" => .object
      | some "array" => .array
      | some name =>
        match PrimitiveKind.ofName? name with
        | some kind => .primitive kind
        | none => .any
      | none => .any

def choicesOf (members : Fields) : Option (List Json) :=
  (Entries.get? members "enum").bind Json.asArray?

def requiredOf (members : Fields) : Option (List String) :=
  (Entries.get? members "required").bind Json.asStrings?

def isPrimitiveKeyword : String × Json → Bool
  | (key, value) => key == "type" || (key == "enum" && value.asArray?.isSome)

def isArrayKeyword : String × Json → Bool
  | (key, _) => key == "type" || key == "items"

def isObjectKeyword : String × Json → Bool
  | (key, value) => key == "type" || (key == "properties" && value.isObject) ||
      (key == "required" && value.asStrings?.isSome) || key == "additionalProperties"

mutual

/-- Classifies a JSON value. -/
def ofJson : Json → Fragment
  | .object members =>
    match shape members with
    | .reference target => .reference target
    | .composition => .composition (membersOf members)
    | .object => .object (propertiesOf members) (requiredOf members)
        (partOf "additionalProperties" members) (members.filter fun entry ↦ !isObjectKeyword entry)
    | .array => .array (partOf "items" members) (members.filter fun entry ↦ !isArrayKeyword entry)
    | .primitive kind =>
      .primitive kind (choicesOf members) (members.filter fun entry ↦ !isPrimitiveKeyword entry)
    | .any => .any (.object members)
  | value => .any value

/-- The fragment under the key. -/
def partOf (wanted : String) : List (String × Json) → Option Fragment
  | [] => none
  | (key, value) :: rest => if key = wanted then some (ofJson value) else partOf wanted rest

/-- The fragments under `allOf`. -/
def membersOf : List (String × Json) → List Fragment
  | [] => []
  | (key, value) :: rest => if key = "allOf" then itemsIn value else membersOf rest

/-- The fragments under `properties`, if it is an object. -/
def propertiesOf : List (String × Json) → Option (List (String × Fragment))
  | [] => none
  | (key, value) :: rest => if key = "properties" then fragmentsIn value else propertiesOf rest

/-- The items of an array, classified. -/
def itemsIn : Json → List Fragment
  | .array items => ofItems items
  | _ => []

/-- The members of an object, classified. -/
def fragmentsIn : Json → Option (List (String × Fragment))
  | .object members => some (ofMembers members)
  | _ => none

def ofItems : List Json → List Fragment
  | [] => []
  | item :: rest => ofJson item :: ofItems rest

def ofMembers : List (String × Json) → List (String × Fragment)
  | [] => []
  | (key, value) :: rest => (key, ofJson value) :: ofMembers rest

end

/-! ### Writing back -/

def ofType (name : String) : Fields := [("type", .string name)]

mutual

def toJson : Fragment → Json
  | .any value => value
  | .reference target => .object [("$ref", .string target)]
  | .composition members => .object [("allOf", .array (toItems members))]
  | .primitive kind choices annotations =>
    .object (((ofType kind.name).insertSome "enum" (choices.map Json.array)).extend annotations)
  | .array items annotations =>
    .object (((ofType "array").insertSome "items" (toPart items)).extend annotations)
  | .object properties required additional annotations =>
    .object (((((ofType "object").insertSome "properties" (toProperties properties)).insertSome
      "required" (required.map fun names ↦ .array (names.map Json.string))).insertSome
      "additionalProperties" (toPart additional)).extend annotations)

def toPart : Option Fragment → Option Json
  | none => none
  | some fragment => some fragment.toJson

def toProperties : Option (List (String × Fragment)) → Option Json
  | none => none
  | some properties => some (.object (toMembers properties))

def toItems : List Fragment → List Json
  | [] => []
  | fragment :: rest => fragment.toJson :: toItems rest

def toMembers : List (String × Fragment) → List (String × Json)
  | [] => []
  | (name, fragment) :: rest => (name, fragment.toJson) :: toMembers rest

end

/-! ### Views -/

def isTruthy : Fragment → Bool
  | .any value => value.isTruthy
  | _ => true

/-- The properties, whether the node is typed or not. -/
def properties : Fragment → Properties
  | .object properties _ _ _ => properties.getD []
  | .any value =>
    match (value.get? "properties").bind Json.asObject? with
    | some members => ofMembers members
    | none => []
  | _ => []

/-- The required names, whether the node is typed or not. -/
def required : Fragment → List String
  | .object _ required _ _ => required.getD []
  | .any value => ((value.get? "required").bind Json.asStrings?).getD []
  | _ => []

/-- The schema of further properties, whether the node is typed or not. -/
def additional? : Fragment → Option Fragment
  | .object _ _ additional _ => additional
  | .any value => (value.get? "additionalProperties").map ofJson
  | _ => none

def annotations? : Fragment → Option Fields
  | .primitive _ _ annotations => some annotations
  | .array _ annotations => some annotations
  | .object _ _ _ annotations => some annotations
  | .any value => value.asObject?
  | .reference _ | .composition _ => none

def description? (fragment : Fragment) : Option String :=
  (fragment.annotations?.bind (Entries.get? · "description")).bind Json.asString?

end Fragment

/-! ### Unresolved nodes -/

namespace Json

/-- Whether an object is itself a reference or a composition. -/
def isUnresolvedNode (members : Fields) : Bool :=
  ((Entries.get? members "$ref").bind asString?).isSome ||
    ((Entries.get? members "allOf").bind asArray?).isSome

mutual

/-- Whether a reference or a composition stands anywhere in the value. -/
def hasUnresolved : Json → Bool
  | .object members => isUnresolvedNode members || anyUnresolvedMember members
  | .array items => anyUnresolvedItem items
  | _ => false

def anyUnresolvedItem : List Json → Bool
  | [] => false
  | item :: rest => item.hasUnresolved || anyUnresolvedItem rest

def anyUnresolvedMember : List (String × Json) → Bool
  | [] => false
  | (_, value) :: rest => value.hasUnresolved || anyUnresolvedMember rest

end

end Json

namespace Fragment

mutual

/-- Whether a reference or a composition stands anywhere in the fragment. -/
def hasUnresolved : Fragment → Bool
  | .reference _ | .composition _ => true
  | .any value => value.hasUnresolved
  | .primitive _ choices annotations =>
    Json.anyUnresolvedItem (choices.getD []) || Json.anyUnresolvedMember annotations
  | .array items annotations =>
    partHasUnresolved items || Json.anyUnresolvedMember annotations
  | .object properties _ additional annotations =>
    anyUnresolvedProperty properties || partHasUnresolved additional ||
      Json.anyUnresolvedMember annotations

def partHasUnresolved : Option Fragment → Bool
  | none => false
  | some fragment => fragment.hasUnresolved

def anyUnresolvedProperty : Option (List (String × Fragment)) → Bool
  | none => false
  | some properties => anyUnresolvedFragment properties

def anyUnresolvedFragment : List (String × Fragment) → Bool
  | [] => false
  | (_, fragment) :: rest => fragment.hasUnresolved || anyUnresolvedFragment rest

end

/-! ### Equality -/

mutual

def decEq : (x y : Fragment) → Decidable (x = y)
  | .any a, .any b => decidable_of_iff (a = b) (by simp)
  | .reference a, .reference b => decidable_of_iff (a = b) (by simp)
  | .composition xs, .composition ys =>
    match decEqItems xs ys with
    | isTrue h => isTrue (by rw [h])
    | isFalse h => isFalse (by simpa using h)
  | .primitive k c a, .primitive k' c' a' =>
    decidable_of_iff (k = k' ∧ c = c' ∧ a = a') (by simp)
  | .array i a, .array i' a' =>
    match decEqOption i i' with
    | isTrue h => decidable_of_iff (a = a') (by simp [h])
    | isFalse h => isFalse (by simp [h])
  | .object p r d a, .object p' r' d' a' =>
    match decEqOptionMembers p p', decEqOption d d' with
    | isTrue h, isTrue h' => decidable_of_iff (r = r' ∧ a = a') (by simp [h, h'])
    | isFalse h, _ => isFalse (by simp [h])
    | _, isFalse h => isFalse (by simp [h])
  | .any _, .primitive .. | .any _, .array .. | .any _, .object .. | .any _, .reference _
  | .any _, .composition _ | .primitive .., .any _ | .primitive .., .array ..
  | .primitive .., .object .. | .primitive .., .reference _ | .primitive .., .composition _
  | .array .., .any _ | .array .., .primitive .. | .array .., .object .. | .array .., .reference _
  | .array .., .composition _ | .object .., .any _ | .object .., .primitive ..
  | .object .., .array .. | .object .., .reference _ | .object .., .composition _
  | .reference _, .any _ | .reference _, .primitive .. | .reference _, .array ..
  | .reference _, .object .. | .reference _, .composition _ | .composition _, .any _
  | .composition _, .primitive .. | .composition _, .array .. | .composition _, .object ..
  | .composition _, .reference _ => isFalse (by simp)

def decEqItems : (xs ys : List Fragment) → Decidable (xs = ys)
  | [], [] => isTrue rfl
  | [], _ :: _ => isFalse (by simp)
  | _ :: _, [] => isFalse (by simp)
  | x :: xs, y :: ys =>
    match decEq x y, decEqItems xs ys with
    | isTrue h, isTrue hs => isTrue (by rw [h, hs])
    | isFalse h, _ => isFalse (by simp [h])
    | _, isFalse hs => isFalse (by simp [hs])

def decEqMembers : (xs ys : List (String × Fragment)) → Decidable (xs = ys)
  | [], [] => isTrue rfl
  | [], _ :: _ => isFalse (by simp)
  | _ :: _, [] => isFalse (by simp)
  | (key, x) :: xs, (other, y) :: ys =>
    match decEq x y, decEqMembers xs ys with
    | isTrue h, isTrue hs => decidable_of_iff (key = other) (by simp [h, hs])
    | isFalse h, _ => isFalse (by simp [h])
    | _, isFalse hs => isFalse (by simp [hs])

def decEqOption : (x y : Option Fragment) → Decidable (x = y)
  | none, none => isTrue rfl
  | none, some _ => isFalse (by simp)
  | some _, none => isFalse (by simp)
  | some x, some y =>
    match decEq x y with
    | isTrue h => isTrue (by rw [h])
    | isFalse h => isFalse (by simpa using h)

def decEqOptionMembers : (x y : Option (List (String × Fragment))) → Decidable (x = y)
  | none, none => isTrue rfl
  | none, some _ => isFalse (by simp)
  | some _, none => isFalse (by simp)
  | some x, some y =>
    match decEqMembers x y with
    | isTrue h => isTrue (by rw [h])
    | isFalse h => isFalse (by simpa using h)

end

instance : DecidableEq Fragment := decEq

end Fragment

end EventSchema
