import EventSchema.Client
import EventSchema.Proofs.Entries
import EventSchema.Proofs.Json.Views
import Mathlib.Data.List.Infix

/-!
# The protocol of a validating client

A client changes nothing about itself but its destination, and that only when another one is set
(`perform_client`). So of the requests before, a request sees no more than the destination that was
set last (`after_eq`), and what it comes to is given by one rule for each kind of request and, where
it is an event, by whether the event is known, valid and refused (`Performs`, `performs_iff`). What
the destinations receive over a whole run is what these rules say, each call where the request found
it (`deliveries_eq`).
-/

set_option autoImplicit false

namespace EventSchema

namespace Client

/-! ### Runs -/

/-- The destination that a request installs. -/
def Request.destination? : Request → Option Destination
  | .setDestination destination => some destination
  | _ => none

/-- The destination after some requests: the one that was set last. -/
def installed (start : Destination) (before : List Request) : Destination :=
  (before.filterMap Request.destination?).getLast?.getD start

/-- The client after some requests. -/
def after (client : Client) (requests : List Request) : Client :=
  requests.foldl (fun client request ↦ (client.perform request).client) client

theorem installed_cons (start : Destination) (request : Request) (before : List Request) :
    installed start (request :: before) =
      installed (request.destination?.getD start) before := by
  rw [installed, installed, List.filterMap_cons]
  cases request.destination? with
  | none => rfl
  | some destination => simp [List.getLast?_cons]

/-- A request leaves the table, the mode and the schemas as they are. -/
theorem perform_client (client : Client) (request : Request) :
    (client.perform request).client =
      { client with destination := request.destination?.getD client.destination } := by
  cases request with
  | capture id event properties =>
    rw [perform, capture]
    split <;> rfl
  | _ => rfl

theorem after_cons (client : Client) (request : Request) (before : List Request) :
    client.after (request :: before) = (client.perform request).client.after before := rfl

theorem after_eq (client : Client) (before : List Request) :
    client.after before = { client with destination := installed client.destination before } := by
  induction before generalizing client with
  | nil => rfl
  | cons request rest ih =>
    rw [after_cons, ih, perform_client, installed_cons]

theorem deliveries_eq (client : Client) (requests : List Request) :
    client.deliveries requests = (requests.inits.zip requests).flatMap fun (before, request) ↦
      ((client.after before).perform request).calls.map
        (Delivery.mk (installed client.destination before).name) := by
  induction requests generalizing client with
  | nil => rfl
  | cons request rest ih =>
    rw [deliveries, ih, List.inits_cons, List.zip_cons_cons, List.flatMap_cons, List.zip_map_left,
      List.flatMap_map]
    simp only [perform_client, installed_cons, after_cons, Prod.map_fst, Prod.map_snd, id_eq]
    rfl

/-! ### What a request comes to -/

section Rules

variable {client : Client} {id event : String} {properties : Fields}

/-- The calls that a request makes to the destination, and its answer. An event goes through as it
is unless something is wrong with it; then it is refused or a warning goes ahead of it. -/
inductive Performs (client : Client) : Request → List Call → Answer → Prop
  | unknown {id event : String} {properties : Fields}
    (hunknown : client.table.get? event = none) :
    Performs client (.capture id event properties) [.capture id event properties] .done
  | disabled {id event : String} {properties : Fields} (hmode : client.mode = .disabled) :
    Performs client (.capture id event properties) [.capture id event properties] .done
  | valid {id event : String} {properties : Fields}
    (hvalid : client.errors event properties = []) :
    Performs client (.capture id event properties) [.capture id event properties] .done
  | strict {id event : String} {properties : Fields} (hmode : client.mode = .strict)
    (hinvalid : client.errors event properties ≠ []) :
    Performs client (.capture id event properties) []
      (.refused ⟨event, client.errors event properties⟩)
  | warning {id event : String} {properties : Fields} (hmode : client.mode = .warning)
    (hinvalid : client.errors event properties ≠ []) :
    Performs client (.capture id event properties)
      [.capture id "$schema_validation_warning"
        [("event", .string event),
          ("errors", .array ((client.errors event properties).map fun e ↦ .string e.message)),
          ("properties", .object properties)],
        .capture id event properties] .done
  | identify {id : String} {properties : Fields} :
    Performs client (.identify id properties) [.identify id properties] .done
  | alias {previous id : String} :
    Performs client (.alias previous id) [.alias previous id] .done
  | featureEnabled {key id : String} :
    Performs client (.featureEnabled key id) [.featureEnabled key id]
      (.enabled (client.destination.isEnabled key id))
  | featureFlag {key id : String} :
    Performs client (.featureFlag key id) [.featureFlag key id]
      (.flag (client.destination.flag? key id))
  | flush : Performs client .flush [.flush] .done
  | shutdown : Performs client .shutdown [.shutdown] .done
  | setDestination {destination : Destination} :
    Performs client (.setDestination destination) [] (.replaced client.destination)

theorem errors_of_unknown (hunknown : client.table.get? event = none) :
    client.errors event properties = [] := by
  rw [errors, hunknown]
  cases client.mode <;> rfl

theorem errors_of_disabled (hmode : client.mode = .disabled) :
    client.errors event properties = [] := by
  rw [errors, hmode]

theorem capture_of_valid (hvalid : client.errors event properties = []) :
    client.capture id event properties =
      { client, calls := [.capture id event properties] } := by
  rw [capture, hvalid]

theorem capture_of_strict (hmode : client.mode = .strict)
    (hinvalid : client.errors event properties ≠ []) :
    client.capture id event properties =
      { client, answer := .refused ⟨event, client.errors event properties⟩ } := by
  obtain ⟨first, rest, herrors⟩ := List.exists_cons_of_ne_nil hinvalid
  rw [capture, herrors, hmode]

theorem capture_of_warning (hmode : client.mode = .warning)
    (hinvalid : client.errors event properties ≠ []) :
    client.capture id event properties =
      { client
        calls := [.capture id warningEvent
          (warningProperties event (client.errors event properties) properties),
          .capture id event properties] } := by
  obtain ⟨first, rest, herrors⟩ := List.exists_cons_of_ne_nil hinvalid
  rw [capture, herrors, hmode]

theorem performs_perform (client : Client) (request : Request) :
    Performs client request (client.perform request).calls (client.perform request).answer := by
  cases request with
  | capture id event properties =>
    rw [perform]
    by_cases herrors : client.errors event properties = []
    · rw [capture_of_valid herrors]
      exact .valid herrors
    · cases hmode : client.mode with
      | strict =>
        rw [capture_of_strict hmode herrors]
        exact .strict hmode herrors
      | warning =>
        rw [capture_of_warning hmode herrors]
        exact .warning hmode herrors
      | disabled => exact absurd (errors_of_disabled hmode) herrors
  | _ => constructor

theorem perform_of_performs {request : Request} {calls : List Call} {answer : Answer}
    (hperforms : Performs client request calls answer) :
    (client.perform request).calls = calls ∧ (client.perform request).answer = answer := by
  cases hperforms with
  | unknown hunknown =>
    rw [perform, capture_of_valid (errors_of_unknown hunknown)]
    exact ⟨rfl, rfl⟩
  | disabled hmode =>
    rw [perform, capture_of_valid (errors_of_disabled hmode)]
    exact ⟨rfl, rfl⟩
  | valid hvalid =>
    rw [perform, capture_of_valid hvalid]
    exact ⟨rfl, rfl⟩
  | strict hmode hinvalid =>
    rw [perform, capture_of_strict hmode hinvalid]
    exact ⟨rfl, rfl⟩
  | warning hmode hinvalid =>
    rw [perform, capture_of_warning hmode hinvalid]
    exact ⟨rfl, rfl⟩
  | _ => exact ⟨rfl, rfl⟩

/-- A request does what the rules say, and nothing else. -/
theorem performs_iff {request : Request} {calls : List Call} {answer : Answer} :
    Performs client request calls answer ↔
      (client.perform request).calls = calls ∧ (client.perform request).answer = answer := by
  constructor
  · exact perform_of_performs
  · rintro ⟨rfl, rfl⟩
    exact performs_perform client request

end Rules

/-! ### What is wrong with an event -/

/-- The names that a schema requires, in its order. -/
def requiredNames : Json → List String
  | .object members =>
    match Entries.get? members "required" with
    | some (.array names) => names.filterMap Json.asString?
    | _ => []
  | _ => []

/-- The schema lists the values that a property may have, and the value is none of them. -/
inductive Excluded (schema : Json) (field : String) (value : Json) : Prop
  | intro {members declared property : Fields} {choices : List Json}
    (hschema : schema = .object members)
    (hdeclared : Entries.get? members "properties" = some (.object declared))
    (hproperty : Entries.get? declared field = some (.object property))
    (hchoices : Entries.get? property "enum" = some (.array choices))
    (hnone : ∀ choice ∈ choices, value.same choice = false)

section Errors

variable {schema value : Json} {field : String}

theorem allowed?_eq_some_iff {choices : List Json} : allowed? schema field = some choices ↔
    ∃ members declared property, schema = .object members ∧
      Entries.get? members "properties" = some (.object declared) ∧
      Entries.get? declared field = some (.object property) ∧
      Entries.get? property "enum" = some (.array choices) := by
  simp only [allowed?, bind, Option.bind_eq_some_iff, Json.get?_eq_some_iff,
    Json.asObject?_eq_some_iff, Json.asArray?_eq_some_iff]
  constructor
  · rintro ⟨declared, ⟨_, ⟨members, rfl, hdeclared⟩, rfl⟩, _, hproperty, _,
      ⟨property, rfl, hchoices⟩, rfl⟩
    exact ⟨members, declared, property, rfl, hdeclared, hproperty, hchoices⟩
  · rintro ⟨members, declared, property, rfl, hdeclared, hproperty, hchoices⟩
    exact ⟨declared, ⟨_, ⟨members, rfl, hdeclared⟩, rfl⟩, _, hproperty, _,
      ⟨property, rfl, hchoices⟩, rfl⟩

theorem excluded_iff : Excluded schema field value ↔
    ∃ choices, allowed? schema field = some choices ∧ choices.any value.same = false := by
  simp only [allowed?_eq_some_iff, List.any_eq_false, Bool.not_eq_true]
  constructor
  · rintro ⟨hschema, hdeclared, hproperty, hchoices, hnone⟩
    exact ⟨_, ⟨_, _, _, hschema, hdeclared, hproperty, hchoices⟩, hnone⟩
  · rintro ⟨choices, ⟨members, declared, property, hschema, hdeclared, hproperty, hchoices⟩, hnone⟩
    exact ⟨hschema, hdeclared, hproperty, hchoices, hnone⟩

instance : Decidable (Excluded schema field value) :=
  decidable_of_iff _ excluded_iff.symm

theorem enumErrors_eq (schema : Json) (properties : Fields) :
    enumErrors schema properties =
      (properties.filter fun entry ↦ Excluded schema entry.1 entry.2).map fun entry ↦
        .notAllowed entry.1 entry.2 := by
  rw [enumErrors]
  refine congrArg (List.map _) (List.filter_congr fun (field, value) _ ↦ ?_)
  rw [Bool.eq_iff_iff, decide_eq_true_iff, excluded_iff]
  cases hallowed : allowed? schema field <;> simp [hallowed]

theorem missingErrors_eq (schema : Json) (properties : Fields) :
    missingErrors schema properties =
      ((requiredNames schema).filter (· ∉ properties.keys)).map .missing := by
  have hnames : requiredNames schema =
      (((schema.get? "required").bind Json.asArray?).getD []).filterMap Json.asString? := by
    cases schema with
    | object members =>
      rw [requiredNames, Json.get?]
      cases Entries.get? members "required" with
      | none => rfl
      | some value => cases value <;> rfl
    | _ => rfl
  rw [missingErrors, hnames]
  refine congrArg (List.map _) (List.filter_congr fun name _ ↦ ?_)
  rw [Bool.eq_iff_iff, decide_eq_true_iff, ← Entries.get?_eq_none_iff, Entries.contains]
  simp

/-- Where events are not checked against whole schemas, what is wrong with one is what it lacks and
what it has of the wrong value. -/
theorem errors_of_shallow (client : Client) (event : String) (properties : Fields) :
    ({ client with schemas := [] } : Client).errors event properties =
      if client.mode = .disabled then []
      else match client.table.get? event with
        | none => []
        | some schema =>
          ((requiredNames schema).filter (· ∉ properties.keys)).map .missing ++
            (properties.filter fun entry ↦ Excluded schema entry.1 entry.2).map fun entry ↦
              .notAllowed entry.1 entry.2 := by
  rw [errors]
  simp only [deepErrors, missingErrors_eq, enumErrors_eq, Entries.get?_nil, List.append_nil]
  cases client.mode <;> cases client.table.get? event <;> simp

end Errors

/-! ### The protocol -/

/-- Over any run the destinations receive exactly the calls that the rules give for each request, in
order, each where the destination is that was set last before the request; what a request comes to
depends on no other request before it. -/
theorem protocol_of_run (client : Client) :
    (∀ requests, client.deliveries requests =
      (requests.inits.zip requests).flatMap fun (before, request) ↦
        (({ client with destination := installed client.destination before } : Client).perform
          request).calls.map (Delivery.mk (installed client.destination before).name)) ∧
    (∀ before request, (client.after before).perform request =
      ({ client with destination := installed client.destination before } : Client).perform
        request) ∧
    (∀ destination request calls answer,
      Performs { client with destination } request calls answer ↔
        (({ client with destination } : Client).perform request).calls = calls ∧
        (({ client with destination } : Client).perform request).answer = answer) ∧
    ∀ event properties, ({ client with schemas := [] } : Client).errors event properties =
      if client.mode = .disabled then []
      else match client.table.get? event with
        | none => []
        | some schema =>
          ((requiredNames schema).filter (· ∉ properties.keys)).map .missing ++
            (properties.filter fun entry ↦ Excluded schema entry.1 entry.2).map fun entry ↦
              .notAllowed entry.1 entry.2 := by
  refine ⟨fun requests ↦ ?_, fun before request ↦ ?_, fun _ _ _ _ ↦ performs_iff, ?_⟩
  · rw [deliveries_eq]
    simp only [after_eq]
  · rw [after_eq]
  · exact errors_of_shallow client

/-- An event that lacks a name, before and after its client gets another destination. -/
example : Client.deliveries
    { destination := ⟨"first", fun _ _ ↦ false, fun _ _ ↦ none⟩
      table := ⟨[("login", .object [("required", .array [.string "id"])])]⟩
      mode := .warning }
    [.capture "u" "login" [], .setDestination ⟨"second", fun _ _ ↦ false, fun _ _ ↦ none⟩,
      .capture "u" "login" [("id", .null)], .flush] =
    [⟨"first", .capture "u" "$schema_validation_warning"
        [("event", .string "login"), ("errors", .array [.string "Missing required field: id"]),
          ("properties", .object [])]⟩,
      ⟨"first", .capture "u" "login" []⟩,
      ⟨"second", .capture "u" "login" [("id", .null)]⟩, ⟨"second", .flush⟩] := by
  decide +kernel

end Client

end EventSchema
