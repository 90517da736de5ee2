import EventSchema.Json

/-!
# Equality under a schema

Numbers are equal when the nearest binary64 numbers are, arrays position by position, and objects
entry by entry in the order of their entries.
-/

set_option autoImplicit false

namespace EventSchema.Schema

/-- The value of the nearest binary64 number, in units of `2 ^ -1074`. -/
def nearestUnits (n : Number) : Option Int := n.toBinary64?.map Binary64.units

mutual

def equal : Json → Json → Bool
  | .null, .null => true
  | .bool a, .bool b => a == b
  | .number a, .number b => nearestUnits a == nearestUnits b
  | .string a, .string b => a == b
  | .array xs, .array ys => equalItems xs ys
  | .object xs, .object ys => equalMembers xs ys
  | _, _ => false

def equalItems : List Json → List Json → Bool
  | [], [] => true
  | x :: xs, y :: ys => equal x y && equalItems xs ys
  | _, _ => false

def equalMembers : List (String × Json) → List (String × Json) → Bool
  | [], [] => true
  | (key, x) :: xs, (other, y) :: ys => key == other && equal x y && equalMembers xs ys
  | _, _ => false

end

/-- The distance below which two numbers are one constant. -/
def tolerance : Nat := Nat.pow 2 1022

/-- Equality with the value of `const`: a number may differ by less than `2 ^ -52`. -/
def equalConst : Json → Json → Bool
  | .number a, .number b =>
    match nearestUnits a, nearestUnits b with
    | some x, some y => (x - y).natAbs < tolerance
    | _, _ => false
  | expected, value => equal expected value

/-- Whether no item equals a later one. -/
def allDistinct : List Json → Bool
  | [] => true
  | item :: rest => !rest.any (equal item) && allDistinct rest

/-- Whether the quotient of the nearest binary64 numbers is whole. A whole divisor divides exactly;
another one up to less than `2 ^ -52`, counted from the whole number towards zero. -/
def isMultiple (value divisor : Number) : Bool :=
  match value.toBinary64?, divisor.toBinary64? with
  | some value, some divisor =>
    if divisor.isInteger then value.isInteger && value.units % divisor.units == 0
    else match value.div divisor with
      | some quotient => quotient.units.tmod Binary64.unitsPerOne < tolerance
      | none => value.units % divisor.units == 0
  | _, _ => false

end EventSchema.Schema
