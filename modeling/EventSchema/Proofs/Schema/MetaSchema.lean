import EventSchema.Schema
import EventSchema.Proofs.Fragment.Classification

/-!
# What the schema of schemas accepts

A value is a schema of draft 7 if it is a truth value, or an object in which every keyword has a
value that meets its demand (`IsSchema`). The schema of schemas asks just that, keyword by keyword
(`asSchema_iff`), so a check with enough steps finds no violation exactly in these values
(`decides_isSchema`), and these are what `Schema.ofJson` accepts (`exists_ofJson_iff`).
-/

set_option autoImplicit false

namespace EventSchema.Schema

/-! ### Schemas of draft 7 -/

/-- What draft 7 demands of the value under a keyword. -/
inductive Demand where
  | nothing
  | text (format : Option String)
  | flag
  | number
  | positive
  | count (defaulted : Bool)
  | list
  | names
  | kinds
  | schema
  | schemas
  | schemaOrSchemas
  /-- Schemas by name; the names may have to be patterns. -/
  | schemasByName (patterns : Bool)
  | dependencies
deriving DecidableEq, Repr

def demands : List (String × Demand) := [
  ("$id", .text (some "uri-reference")),
  ("$schema", .text (some "uri")),
  ("$ref", .text (some "uri-reference")),
  ("$comment", .text none),
  ("title", .text none),
  ("description", .text none),
  ("default", .nothing),
  ("readOnly", .flag),
  ("examples", .list),
  ("multipleOf", .positive),
  ("maximum", .number),
  ("exclusiveMaximum", .number),
  ("minimum", .number),
  ("exclusiveMinimum", .number),
  ("maxLength", .count false),
  ("minLength", .count true),
  ("pattern", .text (some "regex")),
  ("additionalItems", .schema),
  ("items", .schemaOrSchemas),
  ("maxItems", .count false),
  ("minItems", .count true),
  ("uniqueItems", .flag),
  ("contains", .schema),
  ("maxProperties", .count false),
  ("minProperties", .count true),
  ("required", .names),
  ("additionalProperties", .schema),
  ("definitions", .schemasByName false),
  ("properties", .schemasByName false),
  ("patternProperties", .schemasByName true),
  ("dependencies", .dependencies),
  ("propertyNames", .schema),
  ("const", .nothing),
  ("enum", .list),
  ("type", .kinds),
  ("format", .text none),
  ("contentMediaType", .text none),
  ("contentEncoding", .text none),
  ("if", .schema),
  ("then", .schema),
  ("else", .schema),
  ("allOf", .schemas),
  ("anyOf", .schemas),
  ("oneOf", .schemas),
  ("not", .schema)]

def isString (value : Json) : Bool := value.asString?.isSome

def isArray (value : Json) : Bool := value.asArray?.isSome

/-- A list of different strings. -/
def areNames : Json → Bool
  | .array items => items.all isString && allDistinct items
  | _ => false

def isKind : Json → Bool
  | .string name => (Kind.ofName? name).isSome
  | _ => false

namespace Demand

/-- Whether a value meets a demand, but for the schemas inside it. -/
def fits : Demand → Json → Bool
  | nothing, _ | schema, _ => true
  | text format, .string content => format.all (Format.accepts · content)
  | flag, .bool _ => true
  | number, .number _ => true
  | positive, .number n => 0 < n.units
  | count _, .number n => n.isWhole && 0 ≤ n.units
  | list, .array _ => true
  | names, value => areNames value
  | kinds, .array items => items.all isKind && !items.isEmpty && allDistinct items
  | kinds, value => isKind value
  | schemas, .array items | schemaOrSchemas, .array items => !items.isEmpty
  | schemaOrSchemas, _ => true
  | schemasByName patterns, .object members =>
    !patterns || members.all fun (name, _) ↦ Format.accepts "regex" name
  | dependencies, .object members =>
    members.all fun (_, value) ↦ !isArray value || areNames value
  | _, _ => false

/-- The schemas inside a value that meets a demand. -/
def parts : Demand → Json → List Json
  | schemas, .array items | schemaOrSchemas, .array items => items
  | schema, value | schemaOrSchemas, value => [value]
  | schemasByName _, .object members => members.map Prod.snd
  | dependencies, .object members => (members.map Prod.snd).filter fun value ↦ !isArray value
  | _, _ => []

end Demand

theorem fits_schemasByName_iff {patterns : Bool} {members : Fields} :
    (Demand.schemasByName patterns).fits (.object members) = true ↔
      (patterns = true → ∀ member ∈ members, Format.accepts "regex" member.1 = true) := by
  cases patterns <;> simp [Demand.fits]

theorem fits_dependencies_iff {members : Fields} :
    Demand.dependencies.fits (.object members) = true ↔
      ∀ member ∈ members, isArray member.2 = true → areNames member.2 = true := by
  rw [Demand.fits, List.all_eq_true]
  refine forall₂_congr fun (_, part) _ ↦ ?_
  by_cases harray : isArray part <;> simp [harray]

/-- A value that is a schema of draft 7: a truth value, or an object each keyword of which has the
value it demands. -/
inductive IsSchema : Json → Prop
  | bool (value : Bool) : IsSchema (.bool value)
  | object {members : Fields}
    (hfits : ∀ key demand argument, (key, demand) ∈ demands →
      Entries.get? members key = some argument → demand.fits argument = true)
    (hparts : ∀ key demand argument part, (key, demand) ∈ demands →
      Entries.get? members key = some argument → part ∈ demand.parts argument → IsSchema part) :
    IsSchema (.object members)

/-- The part of the schema of schemas that stands for the demand. -/
def Demand.asSchema : Demand → Json
  | .nothing => .bool true
  | .text none => .object [("type", .string "string")]
  | .text (some format) => .object [("type", .string "string"), ("format", .string format)]
  | .flag => .object [("type", .string "boolean"), ("default", .bool false)]
  | .number => .object [("type", .string "number")]
  | .positive => .object [("type", .string "number"), ("exclusiveMinimum", .number (.integer 0))]
  | .count false => .object [("$ref", .string "#/definitions/nonNegativeInteger")]
  | .count true => .object [("$ref", .string "#/definitions/nonNegativeIntegerDefault0")]
  | .list => .object [("type", .string "array"), ("items", .bool true)]
  | .names => .object [("$ref", .string "#/definitions/stringArray")]
  | .kinds => .object [
      ("anyOf", .array [
        .object [("$ref", .string "#/definitions/simpleTypes")],
        .object [
          ("type", .string "array"),
          ("items", .object [("$ref", .string "#/definitions/simpleTypes")]),
          ("minItems", .number (.integer 1)),
          ("uniqueItems", .bool true)]])]
  | .schema => .object [("$ref", .string "#")]
  | .schemas => .object [("$ref", .string "#/definitions/schemaArray")]
  | .schemaOrSchemas => .object [
      ("anyOf", .array [
        .object [("$ref", .string "#")],
        .object [("$ref", .string "#/definitions/schemaArray")]]),
      ("default", .bool true)]
  | .schemasByName false => .object [
      ("type", .string "object"),
      ("additionalProperties", .object [("$ref", .string "#")]),
      ("default", .object [])]
  | .schemasByName true => .object [
      ("type", .string "object"),
      ("additionalProperties", .object [("$ref", .string "#")]),
      ("propertyNames", .object [("format", .string "regex")]),
      ("default", .object [])]
  | .dependencies => .object [
      ("type", .string "object"),
      ("additionalProperties", .object [
        ("anyOf", .array [
          .object [("$ref", .string "#")],
          .object [("$ref", .string "#/definitions/stringArray")]])])]

/-- The keywords of the schema of schemas; under `properties` stands what is demanded of each
keyword. -/
def metaKeywords : Fields := [
    ("$schema", .string "http://json-schema.org/draft-07/schema#"),
    ("$id", .string "http://json-schema.org/draft-07/schema#"),
    ("title", .string "Core schema meta-schema"),
    ("definitions", .object (((metaSchema.get? "definitions").bind Json.asObject?).getD [])),
    ("type", .array [.string "object", .string "boolean"]),
    ("properties", .object (demands.map fun (key, demand) ↦ (key, demand.asSchema))),
    ("default", .bool true)]

theorem metaSchema_eq : metaSchema = .object metaKeywords := rfl

section Check

variable {root target value : Json} {keywords : Fields} {reference : String} {place : Pointer}
  {check : Check} {P : Json → Prop} {steps : Nat}

/-! ### The keywords that the schema of schemas uses -/

section Keywords

variable (argument : Json)

@[simp] theorem keywordViolations_enum :
    keywordViolations check keywords "enum" argument value place =
      enumViolations argument value place := rfl

@[simp] theorem keywordViolations_minimum :
    keywordViolations check keywords "minimum" argument value place =
      boundViolations (fun n limit ↦ limit ≤ n) .belowMinimum argument value place := rfl

@[simp] theorem keywordViolations_exclusiveMinimum :
    keywordViolations check keywords "exclusiveMinimum" argument value place =
      boundViolations (fun n limit ↦ limit < n) .notAboveMinimum argument value place := rfl

@[simp] theorem keywordViolations_format :
    keywordViolations check keywords "format" argument value place =
      formatViolations argument value place := rfl

@[simp] theorem keywordViolations_items :
    keywordViolations check keywords "items" argument value place =
      itemsViolations check argument value place := rfl

@[simp] theorem keywordViolations_minItems :
    keywordViolations check keywords "minItems" argument value place =
      sizeViolations atLeast .tooFewItems itemCount? argument value place := rfl

@[simp] theorem keywordViolations_uniqueItems :
    keywordViolations check keywords "uniqueItems" argument value place =
      uniqueViolations argument value place := rfl

@[simp] theorem keywordViolations_additionalProperties :
    keywordViolations check keywords "additionalProperties" argument value place =
      additionalViolations check keywords argument value place := rfl

@[simp] theorem keywordViolations_propertyNames :
    keywordViolations check keywords "propertyNames" argument value place =
      namesViolations check argument value place := rfl

@[simp] theorem keywordViolations_allOf :
    keywordViolations check keywords "allOf" argument value place =
      allOfViolations check argument value place := rfl

@[simp] theorem keywordViolations_anyOf :
    keywordViolations check keywords "anyOf" argument value place =
      anyOfViolations check argument value place := rfl

/-- Its other keywords ask for nothing. -/
@[simp] theorem keywordViolations_default :
    keywordViolations check keywords "default" argument value place = [] := rfl

end Keywords

/-! ### What a check finds -/

theorem checkWithin_object (hplain : Entries.get? keywords "$ref" = none) :
    checkWithin root (steps + 1) (.object keywords) value place =
      keywords.flatMap fun (key, argument) ↦
        keywordViolations (checkWithin root steps) keywords key argument value place := by
  rw [checkWithin, hplain]

theorem checkWithin_reference (hreference : Entries.get? keywords "$ref" = some (.string reference))
    (htarget : target? root reference = some target) :
    checkWithin root (steps + 1) (.object keywords) value place =
      checkWithin root steps target value place := by
  rw [checkWithin, hreference]
  simp only [htarget]

theorem demand_eq_nil_iff {met : Bool} {cause : Cause} :
    demand met value place cause = [] ↔ met = true := by
  cases met <;> simp [demand]

theorem typeViolations_eq_nil_iff (kind : Kind) :
    typeViolations (.string kind.name) value place = [] ↔ kind.includes value = true := by
  have hkind : Kind.ofName? kind.name = some kind := by cases kind <;> rfl
  rw [typeViolations, hkind, Option.map_some, Option.getD_some, demand_eq_nil_iff]

/-- A schema that names a kind asks for that kind, and for what its other keywords ask. -/
theorem checkWithin_typed (kind : Kind) (hplain : Entries.get? keywords "$ref" = none) :
    checkWithin root (steps + 1) (.object (("type", .string kind.name) :: keywords)) value place =
        [] ↔ kind.includes value = true ∧ ∀ entry ∈ keywords,
      keywordViolations (checkWithin root steps) (("type", .string kind.name) :: keywords) entry.1
        entry.2 value place = [] := by
  rw [checkWithin_object (by simpa [Entries.get?_cons] using hplain), List.flatMap_cons,
    List.append_eq_nil_iff, List.flatMap_eq_nil_iff]
  exact and_congr_left' (typeViolations_eq_nil_iff kind)

theorem eachItem_eq_nil_iff {schema : Json} {items : List Json} (index : Nat)
    (hcheck : ∀ item ∈ items, ∀ place, check schema item place = [] ↔ P item) :
    eachItem check schema place index items = [] ↔ ∀ item ∈ items, P item := by
  induction items generalizing index with
  | nil => simp [eachItem]
  | cons item rest ih =>
    rw [List.forall_mem_cons] at hcheck
    rw [eachItem, List.append_eq_nil_iff, hcheck.1, ih _ hcheck.2, List.forall_mem_cons]

theorem itemsViolations_eq_nil_iff {schema : Fields} {items : List Json}
    (hcheck : ∀ item ∈ items, ∀ place, check (.object schema) item place = [] ↔ P item) :
    itemsViolations check (.object schema) (.array items) place = [] ↔ ∀ item ∈ items, P item :=
  eachItem_eq_nil_iff 0 hcheck

theorem additionalViolations_eq_nil_iff {schema members : Fields}
    (hnone : ∀ name, schemasFor keywords name = [])
    (hcheck : ∀ member ∈ members, ∀ place,
      check (.object schema) member.2 place = [] ↔ P member.2) :
    additionalViolations check keywords (.object schema) (.object members) place = [] ↔
      ∀ member ∈ members, P member.2 := by
  simp only [additionalViolations, hnone, List.flatMap_eq_nil_iff]
  exact forall₂_congr fun member hmem ↦ hcheck member hmem _

theorem propertiesViolations_eq_nil_iff {declared : Fields}
    (hown : leavesToAdditional keywords = false) :
    propertiesViolations check keywords (.object declared) value place = [] ↔
      ∀ entry ∈ declared, ∀ argument, value.get? entry.1 = some argument →
        check entry.2 argument (place.push entry.1) = [] := by
  unfold propertiesViolations
  rw [hown, if_neg (by decide)]
  cases value with
  | object members =>
    simp only [List.flatMap_eq_nil_iff, Json.get?]
    refine forall₂_congr fun entry _ ↦ ?_
    cases Entries.get? members entry.1 <;> simp
  | _ => simp [Json.get?]

theorem namesViolations_eq_nil_iff {schema members : Fields} {Q : String → Prop}
    (hcheck : ∀ name place, check (.object schema) (.string name) place = [] ↔ Q name) :
    namesViolations check (.object schema) (.object members) place = [] ↔
      ∀ member ∈ members, Q member.1 := by
  simp only [namesViolations, List.flatMap_eq_nil_iff, List.map_eq_nil_iff]
  exact forall₂_congr fun member _ ↦ hcheck member.1 _

theorem anyOfViolations_eq_nil_iff {first second : Json} :
    anyOfViolations check (.array [first, second]) value place = [] ↔
      check first value place = [] ∨ check second value place = [] := by
  simp [anyOfViolations, schemasOf, Json.asArray?, demand_eq_nil_iff]

theorem limit?_one : limit? (.number (.integer 1)) = some 1 := by decide +kernel

theorem minItems_one_iff {items : List Json} :
    sizeViolations atLeast .tooFewItems itemCount? (.number (.integer 1)) (.array items) place =
      [] ↔ items ≠ [] := by
  rw [sizeViolations, limit?_one]
  simp [itemCount?, Json.asArray?, demand_eq_nil_iff, atLeast, Nat.one_le_iff_ne_zero]

/-! ### Demands without schemas inside -/

theorem text_iff {format : Option String} :
    checkWithin root (steps + 1) (Demand.text format).asSchema value place = [] ↔
      (Demand.text format).fits value = true := by
  cases format with
  | none =>
    refine (checkWithin_typed .string rfl).trans ?_
    cases value <;> simp [Kind.includes, Demand.fits]
  | some format =>
    refine (checkWithin_typed .string rfl).trans ?_
    cases value <;>
      simp [Kind.includes, Demand.fits, formatViolations, demand_eq_nil_iff]

theorem flag_iff : checkWithin root (steps + 1) Demand.flag.asSchema value place = [] ↔
    Demand.flag.fits value = true := by
  refine (checkWithin_typed .boolean rfl).trans ?_
  cases value <;> simp [Kind.includes, Demand.fits]

theorem number_iff : checkWithin root (steps + 1) Demand.number.asSchema value place = [] ↔
    Demand.number.fits value = true := by
  refine (checkWithin_typed .number rfl).trans ?_
  cases value <;> simp [Kind.includes, Demand.fits]

theorem units_zero : (Number.integer 0).units = 0 := Int.zero_mul _

theorem positive_iff : checkWithin root (steps + 1) Demand.positive.asSchema value place = [] ↔
    Demand.positive.fits value = true := by
  refine (checkWithin_typed .number rfl).trans ?_
  cases value <;>
    simp [Kind.includes, Demand.fits, boundViolations, demand_eq_nil_iff,
      units_zero]

theorem target?_count : target? metaSchema "#/definitions/nonNegativeInteger" =
    some (.object [("type", .string "integer"), ("minimum", .number (.integer 0))]) := rfl

theorem target?_defaulted : target? metaSchema "#/definitions/nonNegativeIntegerDefault0" =
    some (.object [("allOf", .array [
      .object [("$ref", .string "#/definitions/nonNegativeInteger")],
      .object [("default", .number (.integer 0))]])]) := rfl

theorem count_iff (defaulted : Bool) :
    checkWithin metaSchema (steps + 4) (Demand.count defaulted).asSchema value place = [] ↔
      (Demand.count defaulted).fits value = true := by
  have hcount {more : Nat} : checkWithin metaSchema (more + 2)
      (.object [("$ref", .string "#/definitions/nonNegativeInteger")]) value place = [] ↔
      (Demand.count defaulted).fits value = true := by
    rw [checkWithin_reference rfl target?_count]
    refine (checkWithin_typed .integer rfl).trans ?_
    cases value <;>
      simp [Kind.includes, Demand.fits, boundViolations, demand_eq_nil_iff,
        units_zero]
  cases defaulted with
  | false => exact hcount
  | true =>
    have hdefault : checkWithin metaSchema (steps + 2)
        (.object [("default", .number (.integer 0))]) value place = [] := by
      rw [checkWithin_object rfl]
      rfl
    rw [Demand.asSchema, checkWithin_reference rfl target?_defaulted, checkWithin_object rfl]
    simp only [List.flatMap_cons, List.flatMap_nil, List.append_nil, keywordViolations_allOf,
      allOfViolations, schemasOf, Json.asArray?, Option.getD_some, hdefault]
    exact hcount

theorem list_iff : checkWithin root (steps + 2) Demand.list.asSchema value place = [] ↔
    Demand.list.fits value = true := by
  refine (checkWithin_typed .array rfl).trans ?_
  cases value with
  | array items =>
    have hitems : eachItem (checkWithin root (steps + 1)) (.bool true) place 0 items = [] ↔
        ∀ item ∈ items, True :=
      eachItem_eq_nil_iff 0 fun _ _ _ ↦ iff_of_true rfl trivial
    simpa [Kind.includes, Demand.fits, itemsViolations] using hitems
  | _ => simp [Kind.includes, Demand.fits]

theorem target?_names : target? metaSchema "#/definitions/stringArray" =
    some (.object [("type", .string "array"), ("items", .object [("type", .string "string")]),
      ("uniqueItems", .bool true), ("default", .array [])]) := rfl

theorem isString_eq_fits (value : Json) : isString value = (Demand.text none).fits value := by
  cases value <;> rfl

theorem names_iff : checkWithin metaSchema (steps + 3) Demand.names.asSchema value place = [] ↔
    Demand.names.fits value = true := by
  rw [Demand.asSchema, checkWithin_reference rfl target?_names]
  refine (checkWithin_typed .array rfl).trans ?_
  cases value with
  | array items =>
    have hitems : itemsViolations (checkWithin metaSchema (steps + 1))
        (.object [("type", .string "string")]) (.array items) place = [] ↔
        ∀ item ∈ items, isString item = true := by
      refine itemsViolations_eq_nil_iff fun item _ place ↦ ?_
      have htext : checkWithin metaSchema (steps + 1) (Demand.text none).asSchema item place =
          [] ↔ (Demand.text none).fits item = true := text_iff
      rwa [isString_eq_fits]
    simp [Kind.includes, Demand.fits, uniqueViolations, demand_eq_nil_iff,
      areNames, hitems]
  | _ => simp [Kind.includes, Demand.fits, areNames]

theorem target?_kinds : target? metaSchema "#/definitions/simpleTypes" =
    some (.object [("enum", .array (Kind.all.map fun kind ↦ .string kind.name))]) := rfl

theorem kind_iff : checkWithin metaSchema (steps + 2)
    (.object [("$ref", .string "#/definitions/simpleTypes")]) value place = [] ↔
      isKind value = true := by
  rw [checkWithin_reference rfl target?_kinds, checkWithin_object rfl]
  simp only [List.flatMap_cons, List.flatMap_nil, List.append_nil, keywordViolations_enum,
    enumViolations, demand_eq_nil_iff]
  cases value with
  | string name => simp [isKind, Kind.ofName?, equal, List.any_map, @eq_comm _ name]
  | _ => simp [isKind, equal, List.any_map]

theorem kinds_iff : checkWithin metaSchema (steps + 4) Demand.kinds.asSchema value place = [] ↔
    Demand.kinds.fits value = true := by
  rw [Demand.asSchema, checkWithin_object rfl]
  simp only [List.flatMap_cons, List.flatMap_nil, List.append_nil, keywordViolations_anyOf]
  refine (anyOfViolations_eq_nil_iff.trans
    (or_congr kind_iff (checkWithin_typed .array rfl))).trans ?_
  cases value with
  | array items =>
    have hitems : itemsViolations (checkWithin metaSchema (steps + 2))
        (.object [("$ref", .string "#/definitions/simpleTypes")]) (.array items) place = [] ↔
        ∀ item ∈ items, isKind item = true :=
      itemsViolations_eq_nil_iff fun _ _ _ ↦ kind_iff
    have hkind : isKind (.array items) = false := rfl
    simp [Kind.includes, Demand.fits, uniqueViolations, demand_eq_nil_iff,
      hitems, hkind, minItems_one_iff, and_assoc]
  | _ => simp [Kind.includes, Demand.fits]

/-! ### Demands with schemas inside -/

/-- The schema of schemas asks a value for a kind, and its keywords for what they demand. -/
theorem checkWithin_metaSchema : checkWithin metaSchema (steps + 1) metaSchema value place = [] ↔
    (Kind.object.includes value || Kind.boolean.includes value) = true ∧
      ∀ entry ∈ demands, ∀ argument, value.get? entry.1 = some argument →
        checkWithin metaSchema steps entry.2.asSchema argument (place.push entry.1) = [] := by
  have hproperties : propertiesViolations (checkWithin metaSchema steps) metaKeywords
      (.object (demands.map fun (key, demand) ↦ (key, demand.asSchema))) value place = [] ↔ _ :=
    propertiesViolations_eq_nil_iff (by decide)
  rw [List.forall_mem_map] at hproperties
  have htype : typeViolations (.array [.string "object", .string "boolean"]) value place = [] ↔
      (Kind.object.includes value || Kind.boolean.includes value) = true := by
    refine demand_eq_nil_iff.trans ?_
    simp [Kind.ofName?, Kind.all, Json.asString?, Kind.name]
  have hself : checkWithin metaSchema (steps + 1) metaSchema value place =
      checkWithin metaSchema (steps + 1) (.object metaKeywords) value place :=
    congrArg (checkWithin metaSchema (steps + 1) · value place) metaSchema_eq
  rw [← hproperties, ← htype, hself, checkWithin_object rfl, List.flatMap_eq_nil_iff]
  simp only [metaKeywords, List.forall_mem_cons]
  -- The other keywords of the schema of schemas only describe it.
  constructor
  · rintro ⟨-, -, -, -, htype, hproperties, -⟩
    exact ⟨htype, hproperties⟩
  · rintro ⟨htype, hproperties⟩
    exact ⟨rfl, rfl, rfl, rfl, htype, hproperties, rfl, fun _ hmem ↦ absurd hmem List.not_mem_nil⟩

theorem checkWithin_array (items : List Json) :
    checkWithin metaSchema (steps + 1) metaSchema (.array items) place ≠ [] := by
  rw [Ne, checkWithin_metaSchema]
  simp [Kind.includes]

theorem target?_self : target? metaSchema "#" = some metaSchema := rfl

theorem checkWithin_self : checkWithin metaSchema (steps + 1) (.object [("$ref", .string "#")])
    value place = checkWithin metaSchema steps metaSchema value place :=
  checkWithin_reference rfl target?_self

/-- From so many steps on, and at every place, a check finds out whether it holds of a value. -/
def Decides (P : Json → Prop) (steps : Nat) (value : Json) : Prop :=
  ∀ more, steps ≤ more → ∀ place,
    checkWithin metaSchema more metaSchema value place = [] ↔ P value

theorem Decides.self (hdecides : Decides P steps value) (more : Nat) (place : Pointer) :
    checkWithin metaSchema (steps + more + 1) (.object [("$ref", .string "#")]) value place = [] ↔
      P value := by
  rw [checkWithin_self]
  exact hdecides _ (Nat.le_add_right steps more) place

theorem target?_schemas : target? metaSchema "#/definitions/schemaArray" =
    some (.object [("type", .string "array"), ("minItems", .number (.integer 1)),
      ("items", .object [("$ref", .string "#")])]) := rfl

theorem schemas_iff (hparts : ∀ part ∈ Demand.schemas.parts value, Decides P steps part) :
    checkWithin metaSchema (steps + 3) Demand.schemas.asSchema value place = [] ↔
      Demand.schemas.fits value = true ∧ ∀ part ∈ Demand.schemas.parts value, P part := by
  rw [Demand.asSchema, checkWithin_reference rfl target?_schemas]
  refine (checkWithin_typed .array rfl).trans ?_
  cases value with
  | array items =>
    have hitems : itemsViolations (checkWithin metaSchema (steps + 1))
        (.object [("$ref", .string "#")]) (.array items) place = [] ↔ ∀ item ∈ items, P item :=
      itemsViolations_eq_nil_iff fun item hitem ↦ (hparts item hitem).self 0
    simp [Kind.includes, hitems, minItems_one_iff, Demand.fits, Demand.parts]
  | _ => simp [Kind.includes, Demand.fits]

theorem schemaOrSchemas_iff
    (hparts : ∀ part ∈ Demand.schemaOrSchemas.parts value, Decides P steps part) :
    checkWithin metaSchema (steps + 4) Demand.schemaOrSchemas.asSchema value place = [] ↔
      Demand.schemaOrSchemas.fits value = true ∧
        ∀ part ∈ Demand.schemaOrSchemas.parts value, P part := by
  have hany : checkWithin metaSchema (steps + 4) Demand.schemaOrSchemas.asSchema value place =
      [] ↔ checkWithin metaSchema (steps + 3) Demand.schema.asSchema value place = [] ∨
        checkWithin metaSchema (steps + 3) Demand.schemas.asSchema value place = [] := by
    refine Eq.congr_left ?_ |>.trans anyOfViolations_eq_nil_iff
    exact (checkWithin_object rfl).trans (List.append_nil _)
  rw [hany]
  cases value with
  | array items =>
    have hschema : checkWithin metaSchema (steps + 3) Demand.schema.asSchema (.array items) place ≠
        [] := checkWithin_self ▸ checkWithin_array items
    exact (or_iff_right hschema).trans (schemas_iff hparts)
  | _ =>
    have hself := (hparts _ List.mem_cons_self).self 2 place
    refine (or_congr hself (schemas_iff (P := P) fun _ h ↦ absurd h List.not_mem_nil)).trans ?_
    simp [Demand.fits, Demand.parts]

theorem schemasByName_iff (patterns : Bool)
    (hparts : ∀ part ∈ (Demand.schemasByName patterns).parts value, Decides P steps part) :
    checkWithin metaSchema (steps + 2) (Demand.schemasByName patterns).asSchema value place = [] ↔
      (Demand.schemasByName patterns).fits value = true ∧
        ∀ part ∈ (Demand.schemasByName patterns).parts value, P part := by
  cases value with
  | object members =>
    have hmembers : ∀ member ∈ members, ∀ place, checkWithin metaSchema (steps + 1)
        (.object [("$ref", .string "#")]) member.2 place = [] ↔ P member.2 :=
      fun member hmem ↦ (hparts _ (List.mem_map_of_mem hmem)).self 0
    cases patterns with
    | false =>
      refine (checkWithin_typed .object rfl).trans ?_
      simp only [List.forall_mem_cons, keywordViolations_additionalProperties]
      rw [additionalViolations_eq_nil_iff (fun _ ↦ rfl) hmembers, ← List.forall_mem_map]
      simp [Kind.includes, Demand.fits, Demand.parts]
    | true =>
      have hnames (name : String) (place : Pointer) : checkWithin metaSchema (steps + 1)
          (.object [("format", .string "regex")]) (.string name) place = [] ↔
            Format.accepts "regex" name = true := by
        rw [checkWithin_object rfl]
        simp [formatViolations, demand_eq_nil_iff]
      refine (checkWithin_typed .object rfl).trans ?_
      simp only [List.forall_mem_cons, keywordViolations_additionalProperties,
        keywordViolations_propertyNames]
      rw [additionalViolations_eq_nil_iff (fun _ ↦ rfl) hmembers,
        namesViolations_eq_nil_iff hnames, ← List.forall_mem_map]
      simp [Kind.includes, Demand.fits, Demand.parts, and_comm]
  | _ =>
    cases patterns with
    | false =>
      refine (checkWithin_typed .object rfl).trans ?_
      simp [Kind.includes, Demand.fits]
    | true =>
      refine (checkWithin_typed .object rfl).trans ?_
      simp [Kind.includes, Demand.fits]

/-- A dependency is a schema or, if it is a list, a list of names. -/
theorem dependency_iff (hpart : isArray value = false → Decides P steps value) :
    checkWithin metaSchema (steps + 4)
      (.object [("anyOf", .array [.object [("$ref", .string "#")],
        .object [("$ref", .string "#/definitions/stringArray")]])]) value place = [] ↔
      (isArray value = true → areNames value = true) ∧ (isArray value = false → P value) := by
  have hany : checkWithin metaSchema (steps + 4)
      (.object [("anyOf", .array [.object [("$ref", .string "#")],
        .object [("$ref", .string "#/definitions/stringArray")]])]) value place = [] ↔
      checkWithin metaSchema (steps + 3) Demand.schema.asSchema value place = [] ∨
        checkWithin metaSchema (steps + 3) Demand.names.asSchema value place = [] := by
    refine Eq.congr_left ?_ |>.trans anyOfViolations_eq_nil_iff
    exact (checkWithin_object rfl).trans (List.append_nil _)
  rw [hany, names_iff]
  cases value with
  | array items =>
    have hschema : checkWithin metaSchema (steps + 3) Demand.schema.asSchema (.array items) place ≠
        [] := checkWithin_self ▸ checkWithin_array items
    rw [or_iff_right hschema]
    simp [isArray, Json.asArray?, Demand.fits]
  | _ =>
    refine (or_congr_left ((hpart rfl).self 2 place)).trans ?_
    simp [isArray, Json.asArray?, Demand.fits, areNames]

theorem dependencies_iff
    (hparts : ∀ part ∈ Demand.dependencies.parts value, Decides P steps part) :
    checkWithin metaSchema (steps + 5) Demand.dependencies.asSchema value place = [] ↔
      Demand.dependencies.fits value = true ∧
        ∀ part ∈ Demand.dependencies.parts value, P part := by
  refine (checkWithin_typed .object rfl).trans ?_
  simp only [List.forall_mem_cons, keywordViolations_additionalProperties]
  cases value with
  | object members =>
    have hmembers : ∀ member ∈ members, (isArray member.2 = false → Decides P steps member.2) :=
      fun member hmem hpart ↦ hparts member.2
        (List.mem_filter.mpr ⟨List.mem_map_of_mem hmem, by simp [hpart]⟩)
    rw [additionalViolations_eq_nil_iff
      (P := fun part ↦
        (isArray part = true → areNames part = true) ∧ (isArray part = false → P part))
      (fun _ ↦ rfl) fun member hmem _ ↦ dependency_iff (hmembers member hmem)]
    have hall : (∀ part ∈ Demand.dependencies.parts (.object members), P part) ↔
        ∀ member ∈ members, isArray member.2 = false → P member.2 := by
      rw [Demand.parts, List.forall_mem_filter, List.forall_mem_map]
      simp
    rw [fits_dependencies_iff, hall, ← forall₂_and]
    simp [Kind.includes]
  | _ => simp [Kind.includes, Demand.fits]

theorem asSchema_iff (demand : Demand)
    (hparts : ∀ part ∈ demand.parts value, Decides P steps part) :
    checkWithin metaSchema (steps + 5) demand.asSchema value place = [] ↔
      demand.fits value = true ∧ ∀ part ∈ demand.parts value, P part := by
  have hlater (more : Nat) (part : Json) (hpart : part ∈ demand.parts value) :
      Decides P (steps + more) part := fun later hle ↦ hparts part hpart later (by omega)
  have hnone (hnil : demand.parts value = []) : (∀ part ∈ demand.parts value, P part) := by
    simp [hnil]
  cases demand with
  | nothing => exact iff_of_true rfl ⟨rfl, hnone rfl⟩
  | text format => exact text_iff.trans (and_iff_left (hnone rfl)).symm
  | flag => exact flag_iff.trans (and_iff_left (hnone rfl)).symm
  | number => exact number_iff.trans (and_iff_left (hnone rfl)).symm
  | positive => exact positive_iff.trans (and_iff_left (hnone rfl)).symm
  | count defaulted => exact (count_iff defaulted).trans (and_iff_left (hnone rfl)).symm
  | list => exact list_iff.trans (and_iff_left (hnone rfl)).symm
  | names => exact names_iff.trans (and_iff_left (hnone rfl)).symm
  | kinds => exact kinds_iff.trans (and_iff_left (hnone rfl)).symm
  | schema =>
    refine ((hparts value List.mem_cons_self).self 4 place).trans ?_
    simp [Demand.fits, Demand.parts]
  | schemas => exact schemas_iff (hlater 2)
  | schemaOrSchemas => exact schemaOrSchemas_iff (hlater 1)
  | schemasByName patterns => exact schemasByName_iff patterns (hlater 3)
  | dependencies => exact dependencies_iff hparts

end Check

/-! ### What is accepted -/

theorem weight_le_of_mem_parts {demand : Demand} {value part : Json}
    (hpart : part ∈ demand.parts value) : part.weight ≤ value.weight := by
  unfold Demand.parts at hpart
  split at hpart
  · exact Nat.le_of_lt (Json.weight_lt_of_item hpart)
  · exact Nat.le_of_lt (Json.weight_lt_of_item hpart)
  · exact Nat.le_of_eq (congrArg Json.weight (List.mem_singleton.mp hpart))
  · exact Nat.le_of_eq (congrArg Json.weight (List.mem_singleton.mp hpart))
  · obtain ⟨member, hmember, rfl⟩ := List.mem_map.mp hpart
    exact Nat.le_of_lt (Json.weight_lt_of_member hmember)
  · obtain ⟨member, hmember, rfl⟩ := List.mem_map.mp (List.mem_filter.mp hpart).1
    exact Nat.le_of_lt (Json.weight_lt_of_member hmember)
  · cases hpart

theorem weight_lt_of_get? {value argument : Json} {key : String}
    (hget : value.get? key = some argument) : argument.weight < value.weight := by
  cases value with
  | object members =>
    exact Json.weight_lt_of_member (Entries.mem_of_get? hget)
  | _ => cases hget

theorem isSchema_iff {value : Json} : IsSchema value ↔
    (Kind.object.includes value || Kind.boolean.includes value) = true ∧
      ∀ entry ∈ demands, ∀ argument, value.get? entry.1 = some argument →
        entry.2.fits argument = true ∧ ∀ part ∈ entry.2.parts argument, IsSchema part := by
  constructor
  · rintro (⟨value⟩ | ⟨hfits, hparts⟩)
    · exact ⟨rfl, fun _ _ _ hget ↦ absurd hget (by simp [Json.get?])⟩
    · exact ⟨rfl, fun entry hmem argument hget ↦
        ⟨hfits entry.1 entry.2 argument hmem hget,
          fun part ↦ hparts entry.1 entry.2 argument part hmem hget⟩⟩
  · rintro ⟨hkind, hkeywords⟩
    cases value with
    | bool value => exact .bool value
    | object members =>
      exact .object (fun key demand argument hmem hget ↦ (hkeywords _ hmem argument hget).1)
        (fun key demand argument part hmem hget ↦ (hkeywords _ hmem argument hget).2 part)
    | _ => cases hkind

/-- With enough steps a check against the schema of schemas finds out what is a schema. -/
theorem decides_isSchema (value : Json) : Decides IsSchema (8 * value.weight) value := by
  induction hweight : value.weight using Nat.strongRecOn generalizing value with
  | ind weight ih =>
    intro more hmore place
    have hpos := value.weight_pos
    obtain ⟨steps, rfl⟩ := Nat.exists_eq_add_of_le (show 6 ≤ more by omega)
    rw [show 6 + steps = steps + 5 + 1 by omega, checkWithin_metaSchema, isSchema_iff]
    refine and_congr_right' (forall₄_congr fun entry _ argument hget ↦ ?_)
    refine asSchema_iff entry.2 fun part hpart later hlater ↦ ?_
    have hlt := weight_lt_of_get? hget
    have hle := weight_le_of_mem_parts hpart
    exact ih part.weight (by omega) part rfl later (by omega)

/-- What is accepted as a schema is a schema of draft 7 without a relative identifier. -/
theorem exists_ofJson_iff {root : Json} : (∃ schema, Schema.ofJson root = .ok schema) ↔
    hasAbsoluteIdentifier root = true ∧ IsSchema root := by
  have hsteps : 8 * root.weight ≤ metaSchema.weight * (root.weight + 1) + 1 := by
    have hweight : 8 ≤ metaSchema.weight := by decide
    exact Nat.le_succ_of_le (Nat.mul_le_mul hweight (Nat.le_succ _))
  have hdecides : violationsOf metaSchema root = [] ↔ IsSchema root :=
    decides_isSchema root _ hsteps ⟨[]⟩
  rw [← hdecides, Schema.ofJson]
  split_ifs with hidentifier
  · rw [and_iff_right hidentifier]
    split
    · rename_i hnil
      exact iff_of_true ⟨_, rfl⟩ hnil
    · rename_i violation rest hcons
      exact iff_of_false (by simp) (by simp [hcons])
  · exact iff_of_false (by simp) fun haccepted ↦ hidentifier haccepted.1

end EventSchema.Schema
