import EventSchema.Schema.Violation

/-!
# Suggestions

What may help against a violation of the schema of documents. A suggestion is found by words: the
name of the demand, and the texts that the demand carries.
-/

set_option autoImplicit false

namespace EventSchema

namespace Json

mutual

/-- All strings and keys of a value. -/
def texts : Json → List String
  | .string text => [text]
  | .array items => textsOfItems items
  | .object members => textsOfMembers members
  | _ => []

def textsOfItems : List Json → List String
  | [] => []
  | item :: rest => item.texts ++ textsOfItems rest

def textsOfMembers : List (String × Json) → List String
  | [] => []
  | (key, value) :: rest => key :: value.texts ++ textsOfMembers rest

end

end Json

namespace Schema

def Cause.words : Cause → List String
  | nothingAllowed => ["FalseSchema"]
  | notOfKind _ | notOfKinds _ => ["Type"]
  | notInEnum options => "Enum" :: options.texts
  | notConst expected => "Constant" :: expected.texts
  | belowMinimum _ => ["Minimum"]
  | aboveMaximum _ => ["Maximum"]
  | notAboveMinimum _ => ["ExclusiveMinimum"]
  | notBelowMaximum _ => ["ExclusiveMaximum"]
  | notMultipleOf _ => ["MultipleOf"]
  | tooShort _ => ["MinLength"]
  | tooLong _ => ["MaxLength"]
  | notMatching pattern => ["Pattern", pattern]
  | notFormatted format => ["Format", format]
  | tooFewItems _ => ["MinItems"]
  | tooManyItems _ => ["MaxItems"]
  | repeatedItems => ["UniqueItems"]
  | unexpectedItems _ => ["AdditionalItems"]
  | containsNone => ["Contains"]
  | tooFewProperties _ => ["MinProperties"]
  | tooManyProperties _ => ["MaxProperties"]
  | missingProperty name => ["Required", name]
  | unexpectedProperties names => "AdditionalProperties" :: names
  | badName name cause => "PropertyNames" :: name :: cause.words
  | notAnyOf => ["AnyOf"]
  | notOneOf => ["OneOfNotValid"]
  | severalOfOneOf => ["OneOfMultipleValid"]
  | excluded schema => "Not" :: schema.texts
  | unknownReference target => ["InvalidReference", target]
  | relativeIdentifier => ["InvalidURL"]

namespace Violation

/-- The words of the demand. One on a name also carries the place of the object. -/
def words (violation : Violation) : List String :=
  match violation.cause with
  | .badName .. => violation.cause.words ++ violation.place.segments
  | cause => cause.words

def mentions (violation : Violation) (word : String) : Bool :=
  violation.words.any fun text ↦ Text.contains word.toList text.toList

/-- Whether the place is that of an event of a document. -/
def isAtEvent (violation : Violation) : Bool :=
  match violation.place.segments with
  | ["events", _] => true
  | _ => false

def suggestion? (violation : Violation) : Option String :=
  if violation.isAtEvent && violation.mentions "Type" then
    some ("Each event must be a JSON Schema object, e.g. " ++
      "\x7b\"type\": \"object\", \"properties\": \x7b\x7d\x7d")
  else if violation.mentions "Enum" || violation.mentions "AnyOf" then
    some "Use one of: object, array, string, number, integer, boolean, null"
  else if violation.mentions "UniqueItems" then
    some "Remove the repeated name from 'required'"
  else if violation.mentions "MinItems" then some "'allOf' needs at least one sub-schema"
  else if violation.mentions "Type" then some "Check the field type matches the schema"
  else none

end Violation

end Schema

end EventSchema
