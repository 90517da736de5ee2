import EventSchema.Binary64
import EventSchema.Entries

/-!
# JSON values

A number is an integer, when it is written as one and fits 64 bits, or a binary64 number. The
members of an object keep their order.
-/

set_option autoImplicit false

namespace EventSchema

inductive Number where
  | integer (value : Int)
  | float (value : Binary64)
deriving DecidableEq, Repr, Inhabited

namespace Number

/-- The exact value, in units of `2 ^ -1074`. -/
def units : Number → Int
  | .integer value => value * Binary64.unitsPerOne
  | .float value => value.units

/-- The nearest binary64 number, `none` for an integer that is too large. -/
def toBinary64? : Number → Option Binary64
  | .integer value => Binary64.ofInt value
  | .float value => some value

/-- Equal kind and equal value: `1` and `1.0` differ, the two zeros do not. -/
def same : Number → Number → Bool
  | .integer a, .integer b => a == b
  | .float a, .float b => a.units == b.units
  | _, _ => false

def isZero (n : Number) : Bool := n.units == 0

/-- Whether the value is a whole number, however it is written. -/
def isWhole (n : Number) : Bool := n.units % Binary64.unitsPerOne == 0

end Number

inductive Json where
  | null
  | bool (value : Bool)
  | number (value : Number)
  | string (value : String)
  | array (items : List Json)
  | object (members : List (String × Json))
deriving Repr, Inhabited

abbrev Fields := Entries Json

namespace Json

def ofNat (n : Nat) : Json := .number (.integer n)

def isObject : Json → Bool
  | .object _ => true
  | _ => false

def asObject? : Json → Option Fields
  | .object members => some members
  | _ => none

def asArray? : Json → Option (List Json)
  | .array items => some items
  | _ => none

def asString? : Json → Option String
  | .string text => some text
  | _ => none

/-- The member of an object. -/
def get? (value : Json) (key : String) : Option Json :=
  match value with
  | .object members => Entries.get? members key
  | _ => none

/-- The strings of an array that holds nothing else. -/
def asStrings? (value : Json) : Option (List String) :=
  value.asArray?.bind fun items ↦ items.mapM asString?

/-- Null, false, zero and what is empty are falsy. -/
def isTruthy : Json → Bool
  | .null => false
  | .bool b => b
  | .number n => !n.isZero
  | .string text => text != ""
  | .array items => !items.isEmpty
  | .object members => !members.isEmpty

mutual

/-- The number of nodes. -/
def weight : Json → Nat
  | .array items => weightOfItems items + 1
  | .object members => weightOfMembers members + 1
  | _ => 1

def weightOfItems : List Json → Nat
  | [] => 0
  | item :: rest => item.weight + weightOfItems rest

def weightOfMembers : List (String × Json) → Nat
  | [] => 0
  | (_, value) :: rest => value.weight + weightOfMembers rest

end

theorem weight_pos (value : Json) : 0 < value.weight := by
  cases value <;> simp [weight]

mutual

/-- Equality of JSON values: arrays by position, objects by key whatever their order. -/
def same : Json → Json → Bool
  | .null, .null => true
  | .bool a, .bool b => a == b
  | .number a, .number b => a.same b
  | .string a, .string b => a == b
  | .array xs, .array ys => sameItems xs ys
  | .object xs, .object ys => xs.length == ys.length && sameMembers xs ys
  | _, _ => false

def sameItems : List Json → List Json → Bool
  | [], [] => true
  | x :: xs, y :: ys => same x y && sameItems xs ys
  | _, _ => false

/-- Whether every entry of the first object has an equal in the second. -/
def sameMembers : List (String × Json) → Fields → Bool
  | [], _ => true
  | (key, x) :: xs, ys =>
    (match ys.get? key with
      | some y => same x y
      | none => false) && sameMembers xs ys

end

mutual

/-- Equality of the trees: the order of members counts, and so does the sign of zero. -/
def decEq : (x y : Json) → Decidable (x = y)
  | .null, .null => isTrue rfl
  | .bool a, .bool b => decidable_of_iff (a = b) (by simp)
  | .number a, .number b => decidable_of_iff (a = b) (by simp)
  | .string a, .string b => decidable_of_iff (a = b) (by simp)
  | .array xs, .array ys =>
    match decEqItems xs ys with
    | isTrue h => isTrue (by rw [h])
    | isFalse h => isFalse (by simpa using h)
  | .object xs, .object ys =>
    match decEqMembers xs ys with
    | isTrue h => isTrue (by rw [h])
    | isFalse h => isFalse (by simpa using h)
  | .null, .bool _ | .null, .number _ | .null, .string _ | .null, .array _ | .null, .object _
  | .bool _, .null | .bool _, .number _ | .bool _, .string _ | .bool _, .array _
  | .bool _, .object _ | .number _, .null | .number _, .bool _ | .number _, .string _
  | .number _, .array _ | .number _, .object _ | .string _, .null | .string _, .bool _
  | .string _, .number _ | .string _, .array _ | .string _, .object _ | .array _, .null
  | .array _, .bool _ | .array _, .number _ | .array _, .string _ | .array _, .object _
  | .object _, .null | .object _, .bool _ | .object _, .number _ | .object _, .string _
  | .object _, .array _ => isFalse (by simp)

def decEqItems : (xs ys : List Json) → Decidable (xs = ys)
  | [], [] => isTrue rfl
  | [], _ :: _ => isFalse (by simp)
  | _ :: _, [] => isFalse (by simp)
  | x :: xs, y :: ys =>
    match decEq x y, decEqItems xs ys with
    | isTrue h, isTrue hs => isTrue (by rw [h, hs])
    | isFalse h, _ => isFalse (by simp [h])
    | _, isFalse hs => isFalse (by simp [hs])

def decEqMembers : (xs ys : List (String × Json)) → Decidable (xs = ys)
  | [], [] => isTrue rfl
  | [], _ :: _ => isFalse (by simp)
  | _ :: _, [] => isFalse (by simp)
  | (key, x) :: xs, (other, y) :: ys =>
    match decEq x y, decEqMembers xs ys with
    | isTrue h, isTrue hs => decidable_of_iff (key = other) (by simp [h, hs])
    | isFalse h, _ => isFalse (by simp [h])
    | _, isFalse hs => isFalse (by simp [hs])

end

instance : DecidableEq Json := decEq

end Json

end EventSchema
