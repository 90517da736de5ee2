import EventSchema.Proofs.Client.Required
import EventSchema.Proofs.Table

/-!
# Fields and checks

The fields of a planned event are types for a caller; a client over the table of the plan checks
what the caller sends. A required field is one that the client misses, except for the names that are
overlooked (`required_iff_of_load`): the client asks for those, and the field may be left out
(`overlooked_names`). A field whose type is a list of values has just the values that the client
allows it (`literals_agree_of_load`).
-/

set_option autoImplicit false

namespace EventSchema

/-! ### What a client reports -/

theorem head?_toList_append {first : String} {letter : Char}
    (hletter : first.toList.head? = some letter) (more : String) :
    (toString first ++ more).toList.head? = some letter := by
  change (first ++ more).toList.head? = some letter
  rw [String.toList_append, List.head?_append, hletter, Option.some_or]

theorem PropertyError.message_eq_missing_iff {error : PropertyError} {field : String} :
    error.message = s!"Missing required field: {field}" ↔ error = .missing field := by
  -- The three kinds of texts begin with different letters.
  have hother {text : String} {letter : Char} (hletter : text.toList.head? = some letter)
      (hne : letter ≠ 'M') : text ≠ s!"Missing required field: {field}" := by
    rintro rfl
    rw [head?_toList_append rfl] at hletter
    exact hne (Option.some.inj hletter).symm
  cases error with
  | missing other =>
    rw [missing.injEq]
    exact String.append_right_inj "Missing required field: "
  | notAllowed other value =>
    have hletter : "Invalid enum value for ".toList.head? = some 'I' := by simp
    refine iff_of_false (hother ?_ (by decide : 'I' ≠ 'M')) (by simp)
    have hmessage : (notAllowed other value).message =
        s!"Invalid enum value for {other}: {value.display}" := rfl
    rw [hmessage, String.append_assoc, String.append_assoc]
    exact head?_toList_append hletter _
  | violation violation =>
    refine iff_of_false (hother ?_ (by decide : 'S' ≠ 'M')) (by simp)
    by_cases hplace : violation.place.segments.isEmpty
    · have hletter : "Schema violation: ".toList.head? = some 'S' := by simp
      have hmessage : (PropertyError.violation violation).message =
          s!"Schema violation: {violation.message}" := if_pos hplace
      rw [hmessage]
      exact head?_toList_append hletter _
    · have hletter : "Schema violation at ".toList.head? = some 'S' := by simp
      have hmessage : (PropertyError.violation violation).message =
          s!"Schema violation at {violation.place.path}: {violation.message}" := if_neg hplace
      rw [hmessage, String.append_assoc, String.append_assoc]
      exact head?_toList_append hletter _

namespace Client

variable {client : Client} {event : String} {schema : Json} {properties : Fields} {field : String}

/-- The texts of all that is wrong with an event. -/
def messages (client : Client) (event : String) (properties : Fields) : List String :=
  (client.errors event properties).map PropertyError.message

theorem errors_of_known (hmode : client.mode ≠ .disabled)
    (hschema : client.table.get? event = some schema) : client.errors event properties =
      ((requiredNames schema).filter (· ∉ properties.keys)).map .missing ++
        ((properties.filter fun entry ↦ Excluded schema entry.1 entry.2).map fun entry ↦
          .notAllowed entry.1 entry.2) ++ client.deepErrors event properties := by
  rw [← missingErrors_eq, ← enumErrors_eq, errors, hschema]
  cases hother : client.mode with
  | disabled => exact absurd hother hmode
  | strict | warning => rfl

theorem not_mem_deepErrors {error : PropertyError}
    (herror : ∀ violation, error ≠ .violation violation) :
    error ∉ client.deepErrors event properties := by
  unfold deepErrors
  split
  · intro hmem
    obtain ⟨violation, -, rfl⟩ := List.mem_map.mp hmem
    exact herror violation rfl
  · exact List.not_mem_nil

theorem missing_mem_errors_iff (hmode : client.mode ≠ .disabled)
    (hschema : client.table.get? event = some schema) :
    .missing field ∈ client.errors event properties ↔
      field ∈ requiredNames schema ∧ field ∉ properties.keys := by
  have hdeep : .missing field ∉ client.deepErrors event properties := not_mem_deepErrors (by simp)
  rw [errors_of_known hmode hschema]
  simp [hdeep]

theorem notAllowed_mem_errors_iff (hmode : client.mode ≠ .disabled)
    (hschema : client.table.get? event = some schema) {value : Json} :
    .notAllowed field value ∈ client.errors event properties ↔
      (field, value) ∈ properties ∧ Excluded schema field value := by
  have hdeep : .notAllowed field value ∉ client.deepErrors event properties :=
    not_mem_deepErrors (by simp)
  rw [errors_of_known hmode hschema]
  simp [hdeep]

theorem missing_mem_messages_iff (hmode : client.mode ≠ .disabled)
    (hschema : client.table.get? event = some schema) (habsent : field ∉ properties.keys) :
    s!"Missing required field: {field}" ∈ client.messages event properties ↔
      field ∈ requiredNames schema := by
  rw [messages, List.mem_map]
  simp only [PropertyError.message_eq_missing_iff, exists_eq_right]
  rw [missing_mem_errors_iff hmode hschema]
  exact and_iff_left habsent

theorem excluded_iff_of_allowed {value : Json} {choices : List Json}
    (hallowed : allowed? schema field = some choices) :
    Excluded schema field value ↔ ∀ choice ∈ choices, value.same choice = false := by
  rw [excluded_iff, hallowed]
  constructor
  · rintro ⟨others, hothers, hnone⟩
    obtain rfl := Option.some.inj hothers
    simpa using hnone
  · exact fun hnone ↦ ⟨choices, rfl, by simpa using hnone⟩

/-- Where a property is a key once, its value is what is not allowed. -/
theorem exists_notAllowed_iff (hmode : client.mode ≠ .disabled)
    (hschema : client.table.get? event = some schema) (hunique : properties.Unique) {value : Json}
    (hvalue : properties.get? field = some value) :
    (∃ other, .notAllowed field other ∈ client.errors event properties) ↔
      Excluded schema field value := by
  simp only [notAllowed_mem_errors_iff hmode hschema]
  constructor
  · rintro ⟨other, hmem, hexcluded⟩
    obtain rfl := Option.some.inj (hvalue.symm.trans (hunique.get?_of_mem hmem))
    exact hexcluded
  · exact fun hexcluded ↦ ⟨value, Entries.mem_of_get? hvalue, hexcluded⟩

end Client

/-! ### Types of fields -/

namespace TypeExpr

theorem isOptional_ofFragment (fragment : Fragment) : (ofFragment fragment).isOptional = false := by
  cases fragment with
  | primitive kind choices annotations =>
    rw [ofFragment]
    unfold ofPrimitive
    split <;> rfl
  | _ => rfl

theorem exists_of_ofFragment_eq_literal {fragment : Fragment} {values : List Json}
    (hliteral : ofFragment fragment = .literal values) :
    ∃ annotations, fragment = .primitive .string (some values) annotations := by
  cases fragment with
  | primitive kind choices annotations =>
    rw [ofFragment] at hliteral
    unfold ofPrimitive at hliteral
    split at hliteral <;> cases hliteral
    exact ⟨annotations, rfl⟩
  | _ => cases hliteral

end TypeExpr

namespace Field

variable {required : List String} {name : String} {fragment : Fragment}

theorem isOptional_ofProperty :
    (ofProperty required name fragment).type.isOptional = !required.contains name := by
  simp only [ofProperty]
  cases required.contains name with
  | true => exact TypeExpr.isOptional_ofFragment fragment
  | false => rfl

/-- The type of a field is the one that its schema projects to, or the option of it. -/
theorem required_type_ofProperty :
    (ofProperty required name fragment).type.required = TypeExpr.ofFragment fragment := by
  have hplain : (TypeExpr.ofFragment fragment).required = TypeExpr.ofFragment fragment := by
    have hnever := TypeExpr.isOptional_ofFragment fragment
    unfold TypeExpr.required
    split
    · rename_i hoptional
      rw [hoptional] at hnever
      cases hnever
    · rfl
  simp only [ofProperty]
  cases required.contains name with
  | true => exact hplain
  | false => rfl

end Field

/-! ### Plans -/

theorem Table.get?_ofPlan {plan : Plan} (hnames : plan.eventNames.Nodup) {planned : PlannedEvent}
    (hmem : planned ∈ plan.events) :
    (Table.ofPlan plan).get? planned.name = some planned.schema := by
  have hunique : Entries.Unique (plan.events.map fun event ↦ (event.name, event.schema)) := by
    rw [Entries.Unique, Entries.keys, List.map_map]
    exact hnames
  rw [Table.get?, Table.ofPlan, Plan.schemas_eq hnames]
  exact hunique.get?_of_mem (List.mem_map_of_mem hmem)

namespace EventSet

variable {paths : List Path} {source : Source} {set : EventSet} {options : PlanOptions}
  {plan : Plan}

theorem nodup_eventNames_of_load (hload : load paths source = .ok set)
    (hplan : Plan.ofEventSet set options = .ok plan) : plan.eventNames.Nodup := by
  obtain ⟨documents, progress, -, hsound, rfl⟩ := exists_sound_of_load hload
  rw [Plan.eventNames, Plan.events_of_ofEventSet hplan, List.map_map, List.Nodup, List.pairwise_map]
  exact hsound.pairwise_events.imp fun hlt ↦ (ne_of_lt hlt).symm

theorem ofSchema_of_mem_load (hload : load paths source = .ok set) {event : Event}
    (hevent : event ∈ set.events) :
    event = Event.ofSchema event.name event.schema event.source := by
  obtain ⟨documents, progress, -, hsound, rfl⟩ := exists_sound_of_load hload
  obtain ⟨declaration, -, hgives⟩ := hsound.exists_of_mem_toEventSet hevent
  have hname : event.name = declaration.name := congrArg Event.name hgives.event
  have hsource : event.source = declaration.document.path := congrArg Event.source hgives.event
  rw [hname, hsource]
  exact hgives.event

/-- The fields of a planned event are the properties of its schema. -/
theorem exists_property_of_mem_fields (hload : load paths source = .ok set) {event : Event}
    (hevent : event ∈ set.events) {field : Field}
    (hfield : field ∈ (PlannedEvent.ofEvent event).fields) :
    ∃ name fragment, (name, fragment) ∈ event.schema.properties ∧
      field = .ofProperty event.schema.required name fragment := by
  have hevent := ofSchema_of_mem_load hload hevent
  rw [hevent] at hfield
  obtain ⟨⟨name, fragment⟩, hproperty, rfl⟩ := List.mem_map.mp hfield
  exact ⟨name, fragment, hproperty, rfl⟩

/-- The load of a document that declares one event. -/
theorem exists_load_of_expands {path : Path} {root value : Json} {name : String} {schema : Fragment}
    (hread : readDocument source path = .ok ⟨path, root⟩)
    (hevents : (Document.mk path root).events = [(name, value)])
    (hstored : Stored (registered source [⟨path, root⟩]).document? root path)
    (hexpands : Expands (registered source [⟨path, root⟩]).document? root path (.ofJson value)
      schema) :
    ∃ missing, load [path] source = .ok
      { events := [Event.ofSchema name schema path], missing } := by
  have hdocuments := mapM_readDocument (List.pairwise_singleton _ path) (.cons hread .nil)
  have hdeclarations : declarations [⟨path, root⟩] = [⟨⟨path, root⟩, name, value⟩] := by
    rw [declarations, List.flatMap_singleton, hevents, List.map_singleton]
  have hresolve := Resolver.resolve_of_expands rfl hstored hexpands
  exact ⟨_, load_eq_of_declarations hdocuments hdeclarations (Prod.ext hresolve rfl)⟩

/-- A field may be left out exactly if it is not required. A client over the table of the plan
misses a name if its field is required and if it is overlooked, and no field is both. -/
theorem required_iff_of_load (hload : load paths source = .ok set)
    (hplan : Plan.ofEventSet set options = .ok plan) :
    ∃ documents, Reads paths source documents ∧ ∀ planned ∈ plan.events, ∃ event ∈ set.events,
      ∃ document ∈ documents, ∃ schema, planned = PlannedEvent.ofEvent event ∧
        event.source = document.path ∧ document.events.get? event.name = some schema ∧
        ∀ field ∈ planned.fields, field.type.isOptional = !field.required ∧
          (Overlooked (registered source documents).document? field.name document.root
            document.path schema → field.required = false) ∧
          ∀ client : Client, client.table = .ofPlan plan → client.mode ≠ .disabled →
            ∀ properties : Fields, field.name ∉ properties.keys →
              (s!"Missing required field: {field.name}" ∈
                  client.messages planned.name properties ↔
                field.required = true ∨ Overlooked (registered source documents).document?
                  field.name document.root document.path schema) := by
  obtain ⟨documents, progress, hread, hsound, rfl⟩ := exists_sound_of_load hload
  refine ⟨documents, reads_of_mapM hread, fun planned hplanned ↦ ?_⟩
  have hmem := hplanned
  rw [Plan.events_of_ofEventSet hplan] at hmem
  obtain ⟨event, hevent, rfl⟩ := List.mem_map.mp hmem
  obtain ⟨document, hdocument, schema, hsource, hschema, hexpands, htidy⟩ :=
    exists_tidy_of_mem_load hload hread hevent
  refine ⟨event, hevent, document, hdocument, schema, rfl, hsource, hschema, ?_⟩
  intro field hfield
  obtain ⟨name, fragment, hproperty, rfl⟩ := exists_property_of_mem_fields hload hevent hfield
  have hrequired : (Field.ofProperty event.schema.required name fragment).required = true ↔
      name ∈ event.schema.required := List.contains_iff_mem
  have hiff : name ∈ event.schema.required ↔ _ :=
    hexpands.mem_required_iff htidy (List.ne_nil_of_mem hproperty) rfl
  refine ⟨Field.isOptional_ofProperty, fun hover ↦ ?_, ?_⟩
  · rw [Bool.eq_false_iff, Ne, hrequired, hiff]
    exact fun hread ↦ hread.2 hover
  · rintro client htable hmode properties habsent
    have hknown := Table.get?_ofPlan (nodup_eventNames_of_load hload hplan) hplanned
    rw [← htable] at hknown
    rw [Client.missing_mem_messages_iff hmode hknown habsent, hrequired, hiff]
    constructor
    · intro hread
      by_cases hover : Overlooked (registered source documents).document? name document.root
        document.path schema
      · exact .inr hover
      · exact .inl ⟨hread, hover⟩
    · rintro (hread | hover)
      · exact hread.1
      · exact hover.mem_requiredNames hexpands htidy

/-- A field whose type is a list of values has those that stand under `enum` in the schema of the
event, in order, and a client over the table of the plan allows it just these. -/
theorem literals_agree_of_load (hload : load paths source = .ok set)
    (hplan : Plan.ofEventSet set options = .ok plan) :
    ∀ planned ∈ plan.events, ∀ field ∈ planned.fields, ∀ values,
      field.type.required = .literal values →
        (∃ members declared property, planned.schema = .object members ∧
          Entries.get? members "properties" = some (.object declared) ∧
          Entries.get? declared field.name = some (.object property) ∧
          Entries.get? property "enum" = some (.array values)) ∧
        ∀ client : Client, client.table = .ofPlan plan → client.mode ≠ .disabled →
          ∀ properties : Fields, properties.Unique → ∀ value,
            properties.get? field.name = some value →
              ((∃ other, .notAllowed field.name other ∈ client.errors planned.name properties) ↔
                ∀ choice ∈ values, value.same choice = false) := by
  intro planned hplanned field hfield values hliteral
  have hmem := hplanned
  rw [Plan.events_of_ofEventSet hplan] at hmem
  obtain ⟨event, hevent, rfl⟩ := List.mem_map.mp hmem
  obtain ⟨documents, progress, hread, -, -⟩ := exists_sound_of_load hload
  obtain ⟨-, -, -, -, -, -, htidy⟩ := exists_tidy_of_mem_load hload hread hevent
  obtain ⟨name, fragment, hproperty, rfl⟩ := exists_property_of_mem_fields hload hevent hfield
  rw [Field.required_type_ofProperty] at hliteral
  obtain ⟨annotations, rfl⟩ := TypeExpr.exists_of_ofFragment_eq_literal hliteral
  have hwritten := htidy.choices_written hproperty
  refine ⟨hwritten, fun client htable hmode properties hunique value hvalue ↦ ?_⟩
  have hknown := Table.get?_ofPlan (nodup_eventNames_of_load hload hplan) hplanned
  rw [← htable] at hknown
  rw [Client.exists_notAllowed_iff hmode hknown hunique hvalue]
  exact Client.excluded_iff_of_allowed (Client.allowed?_eq_some_iff.mpr hwritten)

/-! ### A required field of two values, and one that is not required -/

def plansText : String :=
  "\x7b\"events\":\x7b\"login\":\x7b\"type\":\"object\",\"properties\":\x7b\"plan\":\x7b" ++
    "\"type\":\"string\",\"enum\":[\"free\",\"pro\"]\x7d\x7d,\"required\":[\"plan\"]\x7d\x7d\x7d"

def plansSchema : Json :=
  .object [("type", .string "object"),
    ("properties", .object [("plan", .object [("type", .string "string"),
      ("enum", .array [.string "free", .string "pro"])])]),
    ("required", .array [.string "plan"])]

def plansRoot : Json := .object [("events", .object [("login", plansSchema)])]

def plansSource : Source where
  files := [(⟨"a.json"⟩, plansText)]

def plansFragment : Fragment :=
  .object (some [("plan", .primitive .string (some [.string "free", .string "pro"]) [])])
    (some ["plan"]) none []

def plansEvent : Event := Event.ofSchema "login" plansFragment ⟨"a.json"⟩

def plansPlan : Plan where
  options := {}
  events := [.ofEvent plansEvent]

def plansClient : Client where
  destination := ⟨"log", fun _ _ ↦ false, fun _ _ ↦ none⟩
  table := .ofPlan plansPlan
  mode := .strict

theorem load_plans : ∃ missing,
    load [⟨"a.json"⟩] plansSource = .ok { events := [plansEvent], missing } := by
  have hparse : Json.parse plansText = .ok plansRoot := by cbv
  have hread : readDocument plansSource ⟨"a.json"⟩ = .ok ⟨⟨"a.json"⟩, plansRoot⟩ :=
    readDocument_of_json rfl (by decide) hparse rfl
  have hfragment : Fragment.ofJson plansSchema = plansFragment := by cbv
  have hstored : Stored (registered plansSource [⟨⟨"a.json"⟩, plansRoot⟩]).document? plansRoot
      ⟨"a.json"⟩ := ⟨rfl, Path.normalize_directory (by decide +kernel)⟩
  refine exists_load_of_expands hread rfl hstored ?_
  rw [hfragment]
  exact .object (.some (.cons (.primitive (.some (.cons (.string _) (.cons (.string _) .nil))) .nil)
    .nil)) .none .nil

/-- A client misses a field that is required. -/
theorem required_iff_of_load_plans :
    (∃ missing, load [⟨"a.json"⟩] plansSource = .ok { events := [plansEvent], missing } ∧
      Plan.ofEventSet { events := [plansEvent], missing } {} = .ok plansPlan) ∧
      "Missing required field: " ++ "plan" ∈ plansClient.messages "login" [] := by
  obtain ⟨missing, hload⟩ := load_plans
  have hplan : Plan.ofEventSet { events := [plansEvent], missing } {} = .ok plansPlan := rfl
  refine ⟨⟨missing, hload, hplan⟩, ?_⟩
  obtain ⟨documents, -, hagree⟩ := required_iff_of_load hload hplan
  obtain ⟨event, -, document, -, schema, -, -, -, hfields⟩ :=
    hagree (.ofEvent plansEvent) List.mem_cons_self
  obtain ⟨-, -, hclients⟩ := hfields (.ofProperty ["plan"] "plan"
    (.primitive .string (some [.string "free", .string "pro"]) [])) List.mem_cons_self
  exact (hclients plansClient rfl (by decide) [] List.not_mem_nil).mpr (.inl rfl)

/-- A client allows one of the two values, and no third one. -/
theorem literals_agree_of_load_plans :
    (∃ missing, load [⟨"a.json"⟩] plansSource = .ok { events := [plansEvent], missing } ∧
      Plan.ofEventSet { events := [plansEvent], missing } {} = .ok plansPlan) ∧
      (¬∃ other, .notAllowed "plan" other ∈
        plansClient.errors "login" [("plan", .string "pro")]) ∧
      ∃ other, .notAllowed "plan" other ∈
        plansClient.errors "login" [("plan", .string "basic")] := by
  obtain ⟨missing, hload⟩ := load_plans
  have hplan : Plan.ofEventSet { events := [plansEvent], missing } {} = .ok plansPlan := rfl
  have hagree := literals_agree_of_load hload hplan (.ofEvent plansEvent) List.mem_cons_self
    (.ofProperty ["plan"] "plan" (.primitive .string (some [.string "free", .string "pro"]) []))
    List.mem_cons_self [.string "free", .string "pro"] rfl
  have hclient (value : Json) := hagree.2 plansClient rfl (by decide) [("plan", value)]
    (List.nodup_singleton "plan") value rfl
  exact ⟨⟨missing, hload, hplan⟩, (hclient _).not.mpr (by decide +kernel),
    (hclient _).mpr (by decide +kernel)⟩

def namesText : String :=
  "\x7b\"events\":\x7b\"login\":\x7b\"type\":\"object\",\"properties\":\x7b\"id\":\x7b\x7d\x7d," ++
    "\"required\":\x7b\"$ref\":\"#/names\"\x7d\x7d\x7d,\"names\":[\"id\"]\x7d"

def namesSchema : Json :=
  .object [("type", .string "object"), ("properties", .object [("id", .object [])]),
    ("required", .object [("$ref", .string "#/names")])]

def namesRoot : Json :=
  .object [("events", .object [("login", namesSchema)]), ("names", .array [.string "id"])]

/-- A document whose event takes its required names from elsewhere. -/
def namesSource : Source where
  files := [(⟨"a.json"⟩, namesText)]

def namesEvent : Event :=
  Event.ofSchema "login" (.object (some [("id", .any (.object []))]) none none
    [("required", .array [.string "id"])]) ⟨"a.json"⟩

def namesPlan : Plan where
  options := {}
  events := [.ofEvent namesEvent]

theorem load_names : ∃ missing,
    load [⟨"a.json"⟩] namesSource = .ok { events := [namesEvent], missing } := by
  have hparse : Json.parse namesText = .ok namesRoot := by cbv
  have hread : readDocument namesSource ⟨"a.json"⟩ = .ok ⟨⟨"a.json"⟩, namesRoot⟩ :=
    readDocument_of_json rfl (by decide) hparse rfl
  have hfragment : Fragment.ofJson namesSchema = .object (some [("id", .any (.object []))]) none
      none [("required", .object [("$ref", .string "#/names")])] := by cbv
  have hstored : Stored (registered namesSource [⟨⟨"a.json"⟩, namesRoot⟩]).document? namesRoot
      ⟨"a.json"⟩ := ⟨rfl, Path.normalize_directory (by decide +kernel)⟩
  have hlist : Fragment.ofJson (.array [.string "id"]) = .any (.array [.string "id"]) := by cbv
  have hparse' : Reference.parse? "#/names" = some (.internal ⟨["names"]⟩) := by decide +kernel
  have hreference : Expands (registered namesSource [⟨⟨"a.json"⟩, namesRoot⟩]).document? namesRoot
      ⟨"a.json"⟩ (.reference "#/names") (.any (.array [.string "id"])) :=
    .reference hparse' rfl (hlist ▸ .any (.array (.cons (.string "id") .nil)))
  refine exists_load_of_expands hread rfl hstored ?_
  rw [hfragment]
  refine .object (.some (.cons (.any (.object rfl .nil)) .nil)) .none (.cons ?_ .nil)
  exact .node rfl (Resolver.ofJson_reference "#/names" ▸ hreference)

/-- The field may be left out, and a client always misses it. -/
theorem overlooked_names : ∃ missing,
    load [⟨"a.json"⟩] namesSource = .ok { events := [namesEvent], missing } ∧
      Plan.ofEventSet { events := [namesEvent], missing } {} = .ok namesPlan ∧
      ∃ planned ∈ namesPlan.events, ∃ field ∈ planned.fields, field.required = false ∧
        ∀ client : Client, client.table = .ofPlan namesPlan → client.mode = .strict →
          ∀ properties : Fields, field.name ∉ properties.keys →
            s!"Missing required field: {field.name}" ∈
              client.messages planned.name properties := by
  obtain ⟨missing, hload⟩ := load_names
  refine ⟨missing, hload, rfl, _, List.mem_cons_self, _, List.mem_cons_self, rfl, ?_⟩
  intro client htable hmode properties habsent
  have hknown : client.table.get? "login" = some namesEvent.schema.toJson := by
    rw [htable]
    rfl
  refine (Client.missing_mem_messages_iff (by simp [hmode]) hknown habsent).mpr ?_
  decide +kernel

end EventSet

end EventSchema
