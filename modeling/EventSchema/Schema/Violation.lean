import EventSchema.Json.Printer
import EventSchema.Pointer

/-!
# Violations of a schema

A violation names the part of an instance that is wrong, where it stands, and which demand it does
not meet.
-/

set_option autoImplicit false

namespace EventSchema

namespace Schema

/-- The kinds of values that a schema can ask for, in alphabetical order. -/
inductive Kind where
  | array
  | boolean
  | integer
  | null
  | number
  | object
  | string
deriving DecidableEq, Repr

namespace Kind

def all : List Kind := [array, boolean, integer, null, number, object, string]

def name : Kind → String
  | array => "array"
  | boolean => "boolean"
  | integer => "integer"
  | null => "null"
  | number => "number"
  | object => "object"
  | string => "string"

def ofName? (text : String) : Option Kind := all.find? (·.name = text)

/-- Whether a value is of the kind. A whole number is an integer however it is written. -/
def includes : Kind → Json → Bool
  | array, .array _ => true
  | boolean, .bool _ => true
  | integer, .number n => n.isWhole
  | null, .null => true
  | number, .number _ => true
  | object, .object _ => true
  | string, .string _ => true
  | _, _ => false

end Kind

/-- The demand that is not met. -/
inductive Cause where
  | nothingAllowed
  | notOfKind (expected : Kind)
  | notOfKinds (expected : List Kind)
  | notInEnum (options : Json)
  | notConst (expected : Json)
  | belowMinimum (limit : Number)
  | aboveMaximum (limit : Number)
  | notAboveMinimum (limit : Number)
  | notBelowMaximum (limit : Number)
  | notMultipleOf (divisor : Number)
  | tooShort (limit : Nat)
  | tooLong (limit : Nat)
  | notMatching (pattern : String)
  | notFormatted (format : String)
  | tooFewItems (limit : Nat)
  | tooManyItems (limit : Nat)
  | repeatedItems
  | unexpectedItems (items : List Json)
  | containsNone
  | tooFewProperties (limit : Nat)
  | tooManyProperties (limit : Nat)
  | missingProperty (name : String)
  | unexpectedProperties (names : List String)
  /-- The name of a property is itself in violation. -/
  | badName (name : String) (cause : Cause)
  | notAnyOf
  | notOneOf
  | severalOfOneOf
  | excluded (schema : Json)
  | unknownReference (target : String)
  | relativeIdentifier
deriving DecidableEq, Repr

structure Violation where
  /-- The value that is wrong. -/
  value : Json
  place : Pointer
  cause : Cause
deriving DecidableEq, Repr

/-- A count and a noun that agrees with it. -/
def counted (count : Nat) (one several : String) : String :=
  String.ofList (decimalDigits count) ++ " " ++ if count = 1 then one else several

/-- The items in parentheses, and that they were not expected. -/
def unexpected (items : List String) : String :=
  "(" ++ ", ".intercalate items ++ (if items.length = 1 then " was" else " were") ++ " unexpected)"

namespace Cause

def numberText (n : Number) : String := String.ofList n.text

/-- The message where `value` is what is wrong. -/
def message (value : Json) : Cause → String
  | nothingAllowed => s!"False schema does not allow {value.compact}"
  | notOfKind expected => s!"{value.compact} is not of type \"{expected.name}\""
  | notOfKinds expected =>
    let names := expected.map fun kind ↦ "\"" ++ kind.name ++ "\""
    value.compact ++ " is not of types " ++ ", ".intercalate names
  | notInEnum options => s!"{value.compact} is not one of {options.compact}"
  | notConst expected => s!"{expected.compact} was expected"
  | belowMinimum limit => s!"{value.compact} is less than the minimum of {numberText limit}"
  | aboveMaximum limit => s!"{value.compact} is greater than the maximum of {numberText limit}"
  | notAboveMinimum limit =>
    s!"{value.compact} is less than or equal to the minimum of {numberText limit}"
  | notBelowMaximum limit =>
    s!"{value.compact} is greater than or equal to the maximum of {numberText limit}"
  | notMultipleOf divisor =>
    s!"{value.compact} is not a multiple of {String.ofList divisor.plainText}"
  | tooShort limit =>
    value.compact ++ " is shorter than " ++ counted limit "character" "characters"
  | tooLong limit => value.compact ++ " is longer than " ++ counted limit "character" "characters"
  | notMatching pattern => s!"{value.compact} does not match \"{pattern}\""
  | notFormatted format => s!"{value.compact} is not a \"{format}\""
  | tooFewItems limit => value.compact ++ " has less than " ++ counted limit "item" "items"
  | tooManyItems limit => value.compact ++ " has more than " ++ counted limit "item" "items"
  | repeatedItems => s!"{value.compact} has non-unique elements"
  | unexpectedItems items =>
    s!"Additional items are not allowed {unexpected (items.map Json.compact)}"
  | containsNone => s!"None of {value.compact} are valid under the given schema"
  | tooFewProperties limit =>
    value.compact ++ " has less than " ++ counted limit "property" "properties"
  | tooManyProperties limit =>
    value.compact ++ " has more than " ++ counted limit "property" "properties"
  | missingProperty name => s!"{(Json.string name).compact} is a required property"
  | unexpectedProperties names =>
    let quoted := names.map fun name ↦ "'" ++ name ++ "'"
    s!"Additional properties are not allowed {unexpected quoted}"
  | badName name cause => cause.message (.string name)
  | notAnyOf =>
    s!"{value.compact} is not valid under any of the schemas listed in the 'anyOf' keyword"
  | notOneOf =>
    s!"{value.compact} is not valid under any of the schemas listed in the 'oneOf' keyword"
  | severalOfOneOf =>
    s!"{value.compact} is valid under more than one of the schemas listed in the 'oneOf' keyword"
  | excluded schema => s!"{schema.compact} is not allowed for {value.compact}"
  | unknownReference target => s!"Invalid reference: {target}"
  | relativeIdentifier => "relative URL without a base"

end Cause

def Violation.message (violation : Violation) : String := violation.cause.message violation.value

end Schema

end EventSchema
