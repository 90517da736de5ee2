import EventSchema.Schema.Equality
import EventSchema.Schema.Format
import EventSchema.Schema.Violation

/-!
# The keywords of a schema

What each keyword demands of a value. The keywords that hold schemas of their own are given the
check of a value against a schema.
-/

set_option autoImplicit false

namespace EventSchema.Schema

/-- Checks a value at a place against a schema. -/
abbrev Check := Json → Json → Pointer → List Violation

/-- One violation unless the demand is met. -/
def demand (met : Bool) (value : Json) (place : Pointer) (cause : Cause) : List Violation :=
  if met then [] else [⟨value, place, cause⟩]

/-! ### Single values -/

def typeViolations (argument value : Json) (place : Pointer) : List Violation :=
  let one (kind : Kind) := demand (kind.includes value) value place (.notOfKind kind)
  match argument with
  | .string name => ((Kind.ofName? name).map one).getD []
  | .array names =>
    let kinds := names.filterMap fun name ↦ name.asString?.bind Kind.ofName?
    match kinds with
    | [kind] => one kind
    | _ =>
      demand (kinds.any (·.includes value)) value place
        (.notOfKinds (Kind.all.filter kinds.contains))
  | _ => []

def enumViolations (argument value : Json) (place : Pointer) : List Violation :=
  match argument with
  | .array options => demand (options.any fun option ↦ equal value option) value place
      (.notInEnum argument)
  | _ => []

/-- A bound on a number, which is met when the test of the two values holds. -/
def boundViolations (test : Int → Int → Bool) (cause : Number → Cause) (argument value : Json)
    (place : Pointer) : List Violation :=
  match argument, value with
  | .number limit, .number n => demand (test n.units limit.units) value place (cause limit)
  | _, _ => []

def multipleViolations (argument value : Json) (place : Pointer) : List Violation :=
  match argument, value with
  | .number divisor, .number n => demand (isMultiple n divisor) value place (.notMultipleOf divisor)
  | _, _ => []

/-- The count that a limit allows. -/
def limit? : Json → Option Nat
  | .number n =>
    if n.isWhole && 0 ≤ n.units then some (n.units / Binary64.unitsPerOne).toNat else none
  | _ => none

/-- A bound on the size of a value, if it has one. -/
def sizeViolations (test : Nat → Nat → Bool) (cause : Nat → Cause) (size? : Json → Option Nat)
    (argument value : Json) (place : Pointer) : List Violation :=
  match limit? argument, size? value with
  | some limit, some size => demand (test size limit) value place (cause limit)
  | _, _ => []

def lengthOf? (value : Json) : Option Nat := value.asString?.map String.length

def itemCount? (value : Json) : Option Nat := value.asArray?.map List.length

def propertyCount? (value : Json) : Option Nat := value.asObject?.map List.length

def atLeast (size limit : Nat) : Bool := limit ≤ size

def atMost (size limit : Nat) : Bool := size ≤ limit

def patternViolations (argument value : Json) (place : Pointer) : List Violation :=
  match argument, value with
  | .string pattern, .string text =>
    match Regex.parse? pattern with
    | some regex => demand (regex.matchesIn text) value place (.notMatching pattern)
    | none => []
  | _, _ => []

def formatViolations (argument value : Json) (place : Pointer) : List Violation :=
  match argument, value with
  | .string format, .string text =>
    demand (Format.accepts format text) value place (.notFormatted format)
  | _, _ => []

/-! ### Arrays -/

def uniqueViolations (argument value : Json) (place : Pointer) : List Violation :=
  match argument, value with
  | .bool true, .array items => demand (allDistinct items) value place .repeatedItems
  | _, _ => []

/-- Checks the items from the given index on against one schema. -/
def eachItem (check : Check) (schema : Json) (place : Pointer) : Nat → List Json → List Violation
  | _, [] => []
  | index, item :: rest =>
    check schema item (place.pushIndex index) ++ eachItem check schema place (index + 1) rest

/-- Checks item by item against as many schemas. -/
def itemByItem (check : Check) (place : Pointer) :
    Nat → List Json → List Json → List Violation
  | index, schema :: schemas, item :: items =>
    check schema item (place.pushIndex index) ++ itemByItem check place (index + 1) schemas items
  | _, _, _ => []

def itemsViolations (check : Check) (argument value : Json) (place : Pointer) : List Violation :=
  match argument, value with
  | .array schemas, .array items => itemByItem check place 0 schemas items
  | schema, .array items => eachItem check schema place 0 items
  | _, _ => []

/-- Only a list of schemas leaves items over. Where no item is allowed, more items are no schema for
anything. -/
def additionalItemsViolations (check : Check) (keywords : Fields) (argument value : Json)
    (place : Pointer) : List Violation :=
  match keywords.get? "items", value with
  | some (.array schemas), .array items =>
    let rest := items.drop schemas.length
    match argument with
    | .bool false => demand rest.isEmpty value place (.unexpectedItems rest)
    | schema => eachItem check schema place schemas.length rest
  | some (.bool false), _ => [⟨value, place, .nothingAllowed⟩]
  | _, _ => []

def containsViolations (check : Check) (argument value : Json) (place : Pointer) :
    List Violation :=
  match value with
  | .array items =>
    demand (items.any fun item ↦ (check argument item place).isEmpty) value place .containsNone
  | _ => []

/-! ### Objects -/

def requiredViolations (argument value : Json) (place : Pointer) : List Violation :=
  match argument, value with
  | .array names, .object members =>
    (names.filterMap Json.asString?).flatMap fun name ↦
      demand (Entries.contains members name) value place (.missingProperty name)
  | _, _ => []

/-- Whether `additionalProperties` speaks for `properties` and `patternProperties` too. -/
def leavesToAdditional (keywords : Fields) : Bool :=
  match keywords.get? "additionalProperties" with
  | some (.bool false) | some (.object _) => true
  | _ => false

def propertiesViolations (check : Check) (keywords : Fields) (argument value : Json)
    (place : Pointer) : List Violation :=
  if leavesToAdditional keywords then []
  else match argument, value with
    | .object declared, .object members =>
      declared.flatMap fun (name, schema) ↦
        match Entries.get? members name with
        | some member => check schema member (place.push name)
        | none => []
    | _, _ => []

/-- Whether a name matches a pattern. -/
def nameMatches (pattern name : String) : Bool :=
  match Regex.parse? pattern with
  | some regex => regex.matchesIn name
  | none => false

def patternPropertiesViolations (check : Check) (keywords : Fields) (argument value : Json)
    (place : Pointer) : List Violation :=
  if leavesToAdditional keywords then []
  else match argument, value with
    | .object patterns, .object members =>
      patterns.flatMap fun (pattern, schema) ↦
        (members.filter fun member ↦ nameMatches pattern member.1).flatMap fun (name, member) ↦
          check schema member (place.push name)
    | _, _ => []

def fieldsOf (keywords : Fields) (key : String) : Fields :=
  ((keywords.get? key).bind Json.asObject?).getD []

/-- The schemas that speak of a property by its name, or by a pattern of it. -/
def schemasFor (keywords : Fields) (name : String) : List Json :=
  ((fieldsOf keywords "properties").get? name).toList ++
    ((fieldsOf keywords "patternProperties").filter fun entry ↦
      nameMatches entry.1 name).map Prod.snd

def additionalViolations (check : Check) (keywords : Fields) (argument : Json) (value : Json)
    (place : Pointer) : List Violation :=
  match argument, value with
  | .bool true, _ => []
  | .bool false, .object members =>
    if keywords.contains "properties" || keywords.contains "patternProperties" then
      let unexpected := members.filter fun member ↦ (schemasFor keywords member.1).isEmpty
      (members.flatMap fun (name, member) ↦
        (schemasFor keywords name).flatMap fun schema ↦ check schema member (place.push name)) ++
      demand unexpected.isEmpty value place (.unexpectedProperties (unexpected.map Prod.fst))
    else match members with
      | [] => []
      | (_, member) :: _ => [⟨member, place, .nothingAllowed⟩]
  | schema, .object members =>
    members.flatMap fun (name, member) ↦
      match schemasFor keywords name with
      | [] => check schema member (place.push name)
      | schemas => schemas.flatMap fun schema ↦ check schema member (place.push name)
  | _, _ => []

def namesViolations (check : Check) (argument value : Json) (place : Pointer) : List Violation :=
  match argument, value with
  | .bool false, .object members => demand members.isEmpty value place .nothingAllowed
  | schema, .object members =>
    members.flatMap fun (name, _) ↦
      (check schema (.string name) ⟨[]⟩).map fun violation ↦
        ⟨value, place, .badName name violation.cause⟩
  | _, _ => []

/-- A property that is there asks for others, or for a schema. -/
def dependenciesViolations (check : Check) (argument value : Json) (place : Pointer) :
    List Violation :=
  match argument, value with
  | .object dependencies, .object members =>
    dependencies.flatMap fun (name, dependency) ↦
      if Entries.contains members name then
        match dependency with
        | .array _ => requiredViolations dependency value place
        | schema => check schema value place
      else []
  | _, _ => []

/-! ### Combinations -/

def schemasOf (argument : Json) : List Json := argument.asArray?.getD []

def allOfViolations (check : Check) (argument value : Json) (place : Pointer) : List Violation :=
  (schemasOf argument).flatMap fun schema ↦ check schema value place

def anyOfViolations (check : Check) (argument value : Json) (place : Pointer) : List Violation :=
  let accepted := (schemasOf argument).any fun schema ↦ (check schema value place).isEmpty
  demand accepted value place .notAnyOf

def oneOfViolations (check : Check) (argument value : Json) (place : Pointer) : List Violation :=
  match (schemasOf argument).filter fun schema ↦ (check schema value place).isEmpty with
  | [] => [⟨value, place, .notOneOf⟩]
  | [_] => []
  | _ => [⟨value, place, .severalOfOneOf⟩]

def notViolations (check : Check) (argument value : Json) (place : Pointer) : List Violation :=
  demand (!(check argument value place).isEmpty) value place (.excluded argument)

/-- The branch that the condition selects, if it is there. -/
def conditionViolations (check : Check) (keywords : Fields) (argument value : Json)
    (place : Pointer) : List Violation :=
  let branch :=
    if !keywords.contains "then" && !keywords.contains "else" then none
    else if (check argument value place).isEmpty then keywords.get? "then"
    else keywords.get? "else"
  match branch with
  | some schema => check schema value place
  | none => []

/-! ### All keywords -/

/-- What a keyword demands of a value. Keywords that are not known demand nothing. -/
def keywordViolations (check : Check) (keywords : Fields) (key : String) (argument value : Json)
    (place : Pointer) : List Violation :=
  match key with
  | "type" => typeViolations argument value place
  | "enum" => enumViolations argument value place
  | "const" => demand (equalConst argument value) value place (.notConst argument)
  | "minimum" => boundViolations (fun n limit ↦ limit ≤ n) .belowMinimum argument value place
  | "maximum" => boundViolations (fun n limit ↦ n ≤ limit) .aboveMaximum argument value place
  | "exclusiveMinimum" =>
    boundViolations (fun n limit ↦ limit < n) .notAboveMinimum argument value place
  | "exclusiveMaximum" =>
    boundViolations (fun n limit ↦ n < limit) .notBelowMaximum argument value place
  | "multipleOf" => multipleViolations argument value place
  | "minLength" => sizeViolations atLeast .tooShort lengthOf? argument value place
  | "maxLength" => sizeViolations atMost .tooLong lengthOf? argument value place
  | "pattern" => patternViolations argument value place
  | "format" => formatViolations argument value place
  | "items" => itemsViolations check argument value place
  | "additionalItems" => additionalItemsViolations check keywords argument value place
  | "minItems" => sizeViolations atLeast .tooFewItems itemCount? argument value place
  | "maxItems" => sizeViolations atMost .tooManyItems itemCount? argument value place
  | "uniqueItems" => uniqueViolations argument value place
  | "contains" => containsViolations check argument value place
  | "minProperties" => sizeViolations atLeast .tooFewProperties propertyCount? argument value place
  | "maxProperties" => sizeViolations atMost .tooManyProperties propertyCount? argument value place
  | "required" => requiredViolations argument value place
  | "properties" => propertiesViolations check keywords argument value place
  | "patternProperties" => patternPropertiesViolations check keywords argument value place
  | "additionalProperties" => additionalViolations check keywords argument value place
  | "propertyNames" => namesViolations check argument value place
  | "dependencies" => dependenciesViolations check argument value place
  | "if" => conditionViolations check keywords argument value place
  | "allOf" => allOfViolations check argument value place
  | "anyOf" => anyOfViolations check argument value place
  | "oneOf" => oneOfViolations check argument value place
  | "not" => notViolations check argument value place
  | _ => []

end EventSchema.Schema
