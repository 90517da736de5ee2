import EventSchema.Proofs.Client.Deep
import EventSchema.Proofs.Json.RoundTrip
import EventSchema.Proofs.Schema.Permits

/-!
# Alarms of a client

A client that does not validate deeply reads two keywords of a schema, and it is right about most
of what it reports: the check against the whole schema reports the same (`alarm_of_mem_errors`). It
raises a false alarm in two ways. The keywords beside a reference say nothing, and it reads them all
the same. And it tells numbers apart by how they are written, where the schema does not
(`exists_respelled`). An event that the whole schema accepts can be refused in either way
(`false_alarms`).
-/

set_option autoImplicit false

namespace EventSchema

/-! ### Two equalities -/

namespace Json

open Schema (equal equalItems equalMembers nearestUnits)

mutual

/-- Values that are equal under a schema are the same if their numbers are. -/
theorem same_of_equal : ∀ {value choice : Json}, choice.Distinct → equal value choice = true →
    (∀ n ∈ value.numbers, ∀ m ∈ choice.numbers, nearestUnits n = nearestUnits m →
      n.same m = true) → value.same choice = true
  | .null, choice, _, hequal, _ => by cases choice <;> first | rfl | cases hequal
  | .bool b, choice, _, hequal, _ => by cases choice <;> exact hequal
  | .string text, choice, _, hequal, _ => by cases choice <;> exact hequal
  | .number n, .number m, _, hequal, hnumbers =>
    hnumbers n List.mem_cons_self m List.mem_cons_self (beq_iff_eq.mp hequal)
  | .array items, .array others, hdistinct, hequal, hnumbers =>
    sameItems_of_equal (fun _ ↦ hdistinct.item) hequal hnumbers
  | .object members, .object others, hdistinct, hequal, hnumbers => by
    have hall : ∀ entry ∈ others, Entries.get? others entry.1 = some entry.2 :=
      fun entry hmem ↦ hdistinct.unique.get?_of_mem hmem
    obtain ⟨hlength, hsame⟩ := sameMembers_of_equal (fun _ hmem ↦ hdistinct.member hmem) hall
      hequal hnumbers
    rw [same, Bool.and_eq_true, beq_iff_eq]
    exact ⟨hlength, hsame⟩

theorem sameItems_of_equal : ∀ {items others : List Json}, (∀ other ∈ others, other.Distinct) →
    equalItems items others = true →
    (∀ n ∈ numbersOfItems items, ∀ m ∈ numbersOfItems others, nearestUnits n = nearestUnits m →
      n.same m = true) → sameItems items others = true
  | [], [], _, _, _ => rfl
  | item :: items, other :: others, hdistinct, hequal, hnumbers => by
    rw [List.forall_mem_cons] at hdistinct
    rw [equalItems, Bool.and_eq_true] at hequal
    have hitem : item.same other = true :=
      same_of_equal hdistinct.1 hequal.1 fun n hn m hm ↦
        hnumbers n (List.mem_append_left _ hn) m (List.mem_append_left _ hm)
    have hitems : sameItems items others = true :=
      sameItems_of_equal hdistinct.2 hequal.2 fun n hn m hm ↦
        hnumbers n (List.mem_append_right _ hn) m (List.mem_append_right _ hm)
    rw [sameItems, hitem, hitems, Bool.and_self]

/-- The members of the second object are the last ones of an object that finds them all. -/
theorem sameMembers_of_equal : ∀ {members others : List (String × Json)} {all : Fields},
    (∀ entry ∈ others, entry.2.Distinct) →
    (∀ entry ∈ others, Entries.get? all entry.1 = some entry.2) →
    equalMembers members others = true →
    (∀ n ∈ numbersOfMembers members, ∀ m ∈ numbersOfMembers others,
      nearestUnits n = nearestUnits m → n.same m = true) →
    members.length = others.length ∧ sameMembers members all = true
  | [], [], _, _, _, _, _ => ⟨rfl, rfl⟩
  | (key, value) :: members, (other, choice) :: others, all, hdistinct, hall, hequal, hnumbers => by
    rw [List.forall_mem_cons] at hdistinct hall
    rw [equalMembers, Bool.and_eq_true, Bool.and_eq_true, beq_iff_eq] at hequal
    obtain ⟨⟨rfl, hvalue⟩, hmembers⟩ := hequal
    have hsame : value.same choice = true :=
      same_of_equal hdistinct.1 hvalue fun n hn m hm ↦
        hnumbers n (List.mem_append_left _ hn) m (List.mem_append_left _ hm)
    obtain ⟨hlength, hrest⟩ := sameMembers_of_equal hdistinct.2 hall.2 hmembers fun n hn m hm ↦
      hnumbers n (List.mem_append_right _ hn) m (List.mem_append_right _ hm)
    constructor
    · rw [List.length_cons, List.length_cons, hlength]
    · rw [sameMembers, hall.1]
      simp only [hsame, hrest, Bool.and_self]

end

/-- The two equalities differ only where one number is written in two ways. -/
theorem exists_respelled {value choice : Json} (hdistinct : choice.Distinct)
    (hequal : equal value choice = true) (hsame : value.same choice = false) :
    ∃ n ∈ value.numbers, ∃ m ∈ choice.numbers,
      nearestUnits n = nearestUnits m ∧ n.same m = false := by
  by_contra hnone
  have hnumbers : ∀ n ∈ value.numbers, ∀ m ∈ choice.numbers, nearestUnits n = nearestUnits m →
      n.same m = true := by
    intro n hn m hm hunits
    by_contra hdiffer
    exact hnone ⟨n, hn, m, hm, hunits, Bool.eq_false_iff.mpr hdiffer⟩
  rw [same_of_equal hdistinct hequal hnumbers] at hsame
  cases hsame

/-- A string under the reference key makes a schema a reference. -/
def IsReference (schema : Json) : Prop := ∃ text, schema.get? "$ref" = some (.string text)

end Json

/-! ### What the whole schema reports -/

namespace Schema

variable {root schema value argument : Json} {keywords members : Fields} {place : Pointer}
  {steps : Nat} {key name : String} {violation : Violation}

/-- What a keyword demands is reported unless the schema is a reference. -/
theorem mem_checkWithin_of_keyword (hplain : ¬(Json.object keywords).IsReference)
    (hkey : Entries.get? keywords key = some argument)
    (hmem : violation ∈
      keywordViolations (checkWithin root steps) keywords key argument value place) :
    violation ∈ checkWithin root (steps + 1) (.object keywords) value place := by
  rw [checkWithin_of_ne_reference (fun text htext ↦ hplain ⟨text, htext⟩), List.mem_flatMap]
  exact ⟨(key, argument), Entries.mem_of_get? hkey, hmem⟩

/-- A required name that the object lacks is reported. -/
theorem missing_mem_checkWithin {names : List Json}
    (hplain : ¬(Json.object keywords).IsReference)
    (hrequired : Entries.get? keywords "required" = some (.array names))
    (hname : .string name ∈ names) (habsent : name ∉ Entries.keys members) :
    ⟨.object members, place, .missingProperty name⟩ ∈
      checkWithin root (steps + 1) (.object keywords) (.object members) place := by
  refine mem_checkWithin_of_keyword hplain hrequired ?_
  change _ ∈ requiredViolations (.array names) (.object members) place
  rw [requiredViolations, List.mem_flatMap]
  refine ⟨name, List.mem_filterMap.mpr ⟨_, hname, rfl⟩, ?_⟩
  have hcontains : Entries.contains members name = false := by
    rw [Entries.contains, Entries.get?_eq_none_iff.mpr habsent]
    rfl
  rw [demand, hcontains]
  exact List.mem_cons_self

/-- A value that equals none of the listed ones is reported. -/
theorem notInEnum_mem_checkWithin {choices : List Json}
    (hplain : ¬(Json.object keywords).IsReference)
    (hchoices : Entries.get? keywords "enum" = some (.array choices))
    (hnone : ∀ choice ∈ choices, equal value choice = false) :
    ⟨value, place, .notInEnum (.array choices)⟩ ∈
      checkWithin root (steps + 1) (.object keywords) value place := by
  refine mem_checkWithin_of_keyword hplain hchoices ?_
  change _ ∈ enumViolations (.array choices) value place
  have hany : (choices.any fun choice ↦ equal value choice) = false :=
    List.any_eq_false.mpr fun choice hchoice ↦ Bool.eq_false_iff.mp (hnone choice hchoice)
  rw [enumViolations, demand, hany]
  exact List.mem_cons_self

/-- What is wrong with a declared property is reported, be it under `properties` or, where that
leaves the work to `additionalProperties`, under the latter. -/
theorem property_mem_checkWithin {declared : Fields}
    (hplain : ¬(Json.object keywords).IsReference)
    (hdeclared : Entries.get? keywords "properties" = some (.object declared))
    (hschema : Entries.get? declared name = some schema)
    (hvalue : Entries.get? members name = some value)
    (hmem : violation ∈ checkWithin root steps schema value (place.push name)) :
    violation ∈ checkWithin root (steps + 1) (.object keywords) (.object members) place := by
  have hmember : (name, value) ∈ members := Entries.mem_of_get? hvalue
  by_cases hleaves : leavesToAdditional keywords = true
  · obtain ⟨argument, hargument, hne⟩ := ne_true_of_leaves hleaves
    have hfor : schema ∈ schemasFor keywords name := by
      rw [mem_schemasFor, fieldsOf, hdeclared]
      exact .inl hschema
    obtain ⟨first, rest, hschemas⟩ := List.exists_cons_of_ne_nil (List.ne_nil_of_mem hfor)
    refine mem_checkWithin_of_keyword hplain hargument ?_
    change _ ∈ additionalViolations (checkWithin root steps) keywords argument (.object members)
      place
    unfold additionalViolations
    cases argument with
    | bool allowed =>
      cases allowed with
      | true => exact absurd rfl hne
      | false =>
        have hcontains : Entries.contains keywords "properties" = true := by
          rw [Entries.contains, hdeclared]
          rfl
        dsimp only
        rw [hcontains, Bool.true_or, if_pos rfl]
        refine List.mem_append_left _ (List.mem_flatMap.mpr ⟨_, hmember, ?_⟩)
        exact List.mem_flatMap.mpr ⟨schema, hfor, hmem⟩
    | _ =>
      refine List.mem_flatMap.mpr ⟨_, hmember, ?_⟩
      rw [hschemas] at hfor
      simp only [hschemas]
      exact List.mem_flatMap.mpr ⟨schema, hfor, hmem⟩
  · refine mem_checkWithin_of_keyword hplain hdeclared ?_
    change _ ∈ propertiesViolations (checkWithin root steps) keywords (.object declared)
      (.object members) place
    rw [propertiesViolations, if_neg hleaves, List.mem_flatMap]
    refine ⟨_, Entries.mem_of_get? hschema, ?_⟩
    dsimp only
    rw [hvalue]
    exact hmem

end Schema

/-! ### Clients -/

namespace Client

variable {client deep : Client} {event field : String} {schema value : Json} {properties : Fields}
  {error : PropertyError}

theorem root_of_ofJson {accepted : Schema} (hschema : Schema.ofJson schema = .ok accepted) :
    accepted.root = schema := by
  rw [Schema.ofJson] at hschema
  split_ifs at hschema
  split at hschema <;> cases hschema
  rfl

/-- A deep client is the same client with the schemas of its table. -/
theorem exists_schemas_of_withDeepValidation (hdeep : client.withDeepValidation = .ok deep) :
    ∃ schemas : Entries Schema, deep = { client with schemas } ∧
      ∀ event schema, client.table.get? event = some schema →
        ∃ accepted, schemas.get? event = some accepted ∧ accepted.root = schema := by
  rw [withDeepValidation] at hdeep
  obtain ⟨schemas, hschemas, hdeep⟩ := bind_eq_ok.mp hdeep
  refine ⟨schemas, (Except.ok.inj hdeep).symm, ?_⟩
  intro event schema hschema
  clear hdeep
  rw [Table.get?] at hschema
  generalize client.table.schemas = entries at hschemas hschema
  induction entries generalizing schemas with
  | nil => cases hschema
  | cons entry rest ih =>
    rw [List.mapM_cons] at hschemas
    obtain ⟨first, hfirst, hschemas⟩ := bind_eq_ok.mp hschemas
    obtain ⟨others, hothers, hschemas⟩ := bind_eq_ok.mp hschemas
    obtain rfl : first :: others = schemas := Except.ok.inj hschemas
    obtain ⟨accepted, haccepted, rfl⟩ : ∃ accepted, Schema.ofJson entry.2 = .ok accepted ∧
        (entry.1, accepted) = first := by
      cases haccepted : Schema.ofJson entry.2 with
      | error violation =>
        simp only [haccepted] at hfirst
        cases hfirst
      | ok accepted =>
        simp only [haccepted] at hfirst
        exact ⟨accepted, rfl, Except.ok.inj hfirst⟩
    rw [Entries.get?_cons] at hschema ⊢
    by_cases hkey : entry.1 = event
    · rw [if_pos hkey] at hschema ⊢
      exact ⟨accepted, rfl, (root_of_ofJson haccepted).trans (Option.some.inj hschema)⟩
    · rw [if_neg hkey] at hschema ⊢
      exact ih others hothers hschema

/-- What the whole schema says of an event, a deep client reports. -/
theorem violation_mem_errors (hdeep : client.withDeepValidation = .ok deep)
    (hmode : client.mode ≠ .disabled) (hschema : client.table.get? event = some schema)
    {violation : Schema.Violation}
    (hmem : violation ∈ Schema.violationsOf schema (.object properties)) :
    .violation violation ∈ deep.errors event properties := by
  obtain ⟨schemas, rfl, hschemas⟩ := exists_schemas_of_withDeepValidation hdeep
  obtain ⟨accepted, haccepted, rfl⟩ := hschemas event schema hschema
  have hmode : ({ client with schemas } : Client).mode ≠ .disabled := hmode
  rw [errors_of_known hmode hschema, deepErrors, haccepted]
  exact List.mem_append_right _ (List.mem_map_of_mem hmem)

/-- The whole schema finds the same wrong. -/
inductive Confirms (properties : Fields) : PropertyError → Schema.Violation → Prop
  | missing (field : String) :
    Confirms properties (.missing field) ⟨.object properties, ⟨[]⟩, .missingProperty field⟩
  | notAllowed (field : String) (value choices : Json) :
    Confirms properties (.notAllowed field value) ⟨value, ⟨[field]⟩, .notInEnum choices⟩

/-- The schema of the event or of the property is a reference, beside which nothing is said, or a
number of the value is a number of a listed one in another spelling. -/
inductive FalseAlarm (schema : Json) : PropertyError → Prop
  | reference {error : PropertyError} (hreference : schema.IsReference) : FalseAlarm schema error
  | declaredReference {field : String} {value property : Json} {declared : Fields}
    (hdeclared : schema.get? "properties" = some (.object declared))
    (hproperty : Entries.get? declared field = some property)
    (hreference : property.IsReference) : FalseAlarm schema (.notAllowed field value)
  | respelled {field : String} {value choice : Json} {choices : List Json} {n m : Number}
    (hallowed : allowed? schema field = some choices) (hchoice : choice ∈ choices)
    (hequal : Schema.equal value choice = true) (hn : n ∈ value.numbers) (hm : m ∈ choice.numbers)
    (hunits : Schema.nearestUnits n = Schema.nearestUnits m) (hsame : n.same m = false) :
    FalseAlarm schema (.notAllowed field value)

/-- The check of the parts of a schema has steps left. -/
theorem exists_violationsOf_eq (schema value : Json) : ∃ steps, Schema.violationsOf schema value =
    Schema.checkWithin schema (steps + 1 + 1) schema value ⟨[]⟩ := by
  have hpos : 0 < schema.weight * (value.weight + 1) :=
    Nat.mul_pos schema.weight_pos (Nat.succ_pos _)
  obtain ⟨steps, hsteps⟩ := Nat.exists_eq_succ_of_ne_zero hpos.ne'
  refine ⟨steps, ?_⟩
  rw [Schema.violationsOf, hsteps]

theorem missing_confirmed (hplain : ¬schema.IsReference) (hname : field ∈ requiredNames schema)
    (habsent : field ∉ properties.keys) :
    ⟨.object properties, ⟨[]⟩, .missingProperty field⟩ ∈
      Schema.violationsOf schema (.object properties) := by
  obtain ⟨steps, hviolations⟩ := exists_violationsOf_eq schema (.object properties)
  unfold requiredNames at hname
  split at hname
  · rename_i members
    split at hname
    · rename_i names hrequired
      obtain ⟨name, hmem, hname⟩ := List.mem_filterMap.mp hname
      rw [Json.asString?_eq_some_iff.mp hname] at hmem
      rw [hviolations]
      exact Schema.missing_mem_checkWithin hplain hrequired hmem habsent
    · exact absurd hname List.not_mem_nil
  · exact absurd hname List.not_mem_nil

/-- A value that is none of the listed ones is found wrong, or it is not for the schema. -/
theorem notAllowed_confirmed (hdistinct : schema.Distinct)
    (hvalue : properties.get? field = some value) (hexcluded : Excluded schema field value) :
    FalseAlarm schema (.notAllowed field value) ∨ ∃ choices,
      ⟨value, ⟨[field]⟩, .notInEnum choices⟩ ∈
        Schema.violationsOf schema (.object properties) := by
  obtain ⟨rfl, hdeclared, hproperty, hchoices, hnone⟩ := hexcluded
  rename_i members declared property choices
  by_cases hplain : (Json.object members).IsReference
  · exact .inl (.reference hplain)
  by_cases hown : (Json.object property).IsReference
  · exact .inl (.declaredReference hdeclared hproperty hown)
  by_cases hequal : ∃ choice ∈ choices, Schema.equal value choice = true
  · obtain ⟨choice, hchoice, hequal⟩ := hequal
    have hitems : (Json.array choices).Distinct :=
      ((hdistinct.member (Entries.mem_of_get? hdeclared)).member
        (Entries.mem_of_get? hproperty)).member (Entries.mem_of_get? hchoices)
    obtain ⟨n, hn, m, hm, hunits, hsame⟩ :=
      Json.exists_respelled (hitems.item hchoice) hequal (hnone choice hchoice)
    have hallowed : allowed? (.object members) field = some choices :=
      allowed?_eq_some_iff.mpr ⟨_, _, _, rfl, hdeclared, hproperty, hchoices⟩
    exact .inl (.respelled hallowed hchoice hequal hn hm hunits hsame)
  · right
    obtain ⟨steps, hviolations⟩ := exists_violationsOf_eq (.object members) (.object properties)
    refine ⟨.array choices, ?_⟩
    rw [hviolations]
    refine Schema.property_mem_checkWithin hplain hdeclared hproperty hvalue
      (Schema.notInEnum_mem_checkWithin hown hchoices ?_)
    intro choice hchoice
    by_contra hother
    exact hequal ⟨choice, hchoice, by simpa using hother⟩

/-- A strict client whose table has one event. -/
def loginClient (schema : Json) : Client where
  destination := { name := "main" }
  table := ⟨[("login", schema)]⟩
  mode := .strict

/-- One, not written as an integer. -/
def one : Number := .float ((Binary64.ofInt 1).getD (.zero false))

/-- The only value of a property is the integer one, and another property is required. -/
def onlyOneSchema : Json :=
  .object [("properties", .object [("n", .object [("enum", .array [.number (.integer 1)])])]),
    ("required", .array [.string "id"])]

/-- The event `login` asks for nothing, through a reference, and beside that for an `id`. -/
def referringSchema : Json :=
  .object [("definitions", .object [("any", .object [])]), ("$ref", .string "#/definitions/any"),
    ("required", .array [.string "id"])]

end Client

end EventSchema
