import EventSchema.Artifact
import EventSchema.Proofs.EventSet.Missing
import EventSchema.Proofs.EventSet.Overwritten
import EventSchema.Proofs.Json.RoundTrip
import EventSchema.Proofs.Plan
import EventSchema.Proofs.Resolver.Objects
import EventSchema.Proofs.Resolver.Resolved
import EventSchema.Table

/-!
# Tables of artifacts

The artifact of a plan in JSON is read as the table of the plan, event by event in order, exactly
if every schema is an object and is not nested too deep (`Plan.Rereads`). The plan of a load has
one event of each name and schemas of distinct keys, so that this holds of it (`rereads_of_load`).
A dangling reference gives an event the schema null, and then no event of the artifact is read
(`refused_chain`).
-/

set_option autoImplicit false

namespace EventSchema

/-! ### Reading a table -/

namespace Table

variable {text : String} {schemas : Fields}

theorem parse_of_error {error : Json.ParseError} (hparse : Json.parse text = .error error) :
    parse text = .error (.table (.json error)) := by
  rw [parse, hparse]

theorem parse_of_find?_eq_some {entry : String × Json}
    (hparse : Json.parse text = .ok (.object schemas))
    (hfirst : schemas.find? (fun entry ↦ !entry.2.isObject) = some entry) :
    parse text = .error (.table (.schemaNotObject entry.1)) := by
  rw [parse, hparse]
  simp only [hfirst]

theorem parse_of_find?_eq_none (hparse : Json.parse text = .ok (.object schemas))
    (hnone : schemas.find? (fun entry ↦ !entry.2.isObject) = none) :
    parse text = .ok ⟨schemas⟩ := by
  rw [parse, hparse]
  simp only [hnone]

end Table

/-! ### Reading an artifact -/

namespace Plan

variable {plan : Plan}

/-- No schema is too deep for a reader that is already inside the table. -/
def Shallow (plan : Plan) : Prop :=
  ∀ event ∈ plan.events, event.schema.nesting < Json.depthLimit

/-- The artifact is read as the table of the plan exactly if every schema is an object and is not
nested too deep inside the table. It is refused at the first schema that is no object, or because
of the depth. -/
structure Rereads (plan : Plan) : Prop where
  schemas : plan.schemas = plan.events.map fun event ↦ (event.name, event.schema)
  same_iff : Table.parse (plan.render .json) = .ok (Table.ofPlan plan) ↔
    (∀ event ∈ plan.events, event.schema.isObject = true) ∧ plan.Shallow
  notObject (hshallow : plan.Shallow) {event : PlannedEvent}
    (hfirst : plan.events.find? (fun event ↦ !event.schema.isObject) = some event) :
    Table.parse (plan.render .json) = .error (.table (.schemaNotObject event.name))
  tooDeep (hdeep : ¬plan.Shallow) : ∃ error,
    Table.parse (plan.render .json) = .error (.table (.json error)) ∧ error.problem = .tooDeep

section Rereads

variable (hnames : plan.eventNames.Nodup)

include hnames

theorem nesting_schemas_le_iff :
    (Json.object plan.schemas).nesting ≤ Json.depthLimit ↔ plan.Shallow := by
  rw [Json.nesting, schemas_eq hnames, Nat.succ_le_iff, Nat.lt_iff_le_pred (by decide),
    Json.nestingOfMembers_le_iff, List.forall_mem_map]
  refine forall₂_congr fun event _ ↦ ?_
  rw [Nat.lt_iff_le_pred (by decide)]

theorem distinct_schemas (hdistinct : ∀ event ∈ plan.events, event.schema.Distinct) :
    (Json.object plan.schemas).Distinct := by
  rw [schemas_eq hnames]
  refine .object ?_ (List.forall_mem_map.mpr hdistinct)
  rw [Entries.Unique, Entries.keys, List.map_map]
  exact hnames

theorem find?_schemas : plan.schemas.find? (fun entry ↦ !entry.2.isObject) =
    (plan.events.find? fun event ↦ !event.schema.isObject).map
      fun event ↦ (event.name, event.schema) := by
  rw [schemas_eq hnames, List.find?_map]
  rfl

theorem parse_tableText (hdistinct : ∀ event ∈ plan.events, event.schema.Distinct)
    (hnumbers : ∀ event ∈ plan.events, ∀ n ∈ event.schema.numbers, n.ReadsBack) :
    (plan.Shallow → Json.parse plan.tableText = .ok (.object plan.schemas)) ∧
      (¬plan.Shallow → ∃ error, Json.parse plan.tableText = .error error ∧
        error.problem = .tooDeep) := by
  have hread : ∀ n ∈ (Json.object plan.schemas).numbers, Json.ReadAs n n.text := by
    intro n hn
    rw [Json.numbers, schemas_eq hnames, Json.mem_numbersOfMembers_iff] at hn
    obtain ⟨entry, hentry, hn⟩ := hn
    obtain ⟨event, hevent, rfl⟩ := List.mem_map.mp hentry
    exact Number.readsBack_iff.mp (hnumbers event hevent n hn)
  have hparse := Json.parse_pretty_append (distinct_schemas hnames hdistinct) hread "\n" rfl
  rwa [← Nat.not_le, nesting_schemas_le_iff hnames] at hparse

theorem rereads (hdistinct : ∀ event ∈ plan.events, event.schema.Distinct)
    (hnumbers : ∀ event ∈ plan.events, ∀ n ∈ event.schema.numbers, n.ReadsBack) :
    plan.Rereads := by
  obtain ⟨hread, hrefused⟩ := parse_tableText hnames hdistinct hnumbers
  have htooDeep (hdeep : ¬plan.Shallow) : ∃ error,
      Table.parse (plan.render .json) = .error (.table (.json error)) ∧
        error.problem = .tooDeep := by
    obtain ⟨error, hparse, hproblem⟩ := hrefused hdeep
    exact ⟨error, Table.parse_of_error hparse, hproblem⟩
  have hnotObject (hshallow : plan.Shallow) {event : PlannedEvent}
      (hfirst : plan.events.find? (fun event ↦ !event.schema.isObject) = some event) :
      Table.parse (plan.render .json) = .error (.table (.schemaNotObject event.name)) := by
    have hentry := find?_schemas hnames
    rw [hfirst, Option.map_some] at hentry
    exact Table.parse_of_find?_eq_some (hread hshallow) hentry
  refine ⟨schemas_eq hnames, ?_, hnotObject, htooDeep⟩
  constructor
  · intro hparse
    have hshallow : plan.Shallow := by
      by_contra hdeep
      obtain ⟨error, herror, -⟩ := htooDeep hdeep
      rw [herror] at hparse
      cases hparse
    refine ⟨?_, hshallow⟩
    have hnone : plan.events.find? (fun event ↦ !event.schema.isObject) = none := by
      by_contra hsome
      obtain ⟨event, hfirst⟩ := Option.ne_none_iff_exists'.mp hsome
      rw [hnotObject hshallow hfirst] at hparse
      cases hparse
    simpa using hnone
  · rintro ⟨hobjects, hshallow⟩
    have hnone : plan.events.find? (fun event ↦ !event.schema.isObject) = none := by
      simpa using hobjects
    have hentry := find?_schemas hnames
    rw [hnone, Option.map_none] at hentry
    exact Table.parse_of_find?_eq_none (hread hshallow) hentry

end Rereads

end Plan

/-! ### The events of a load -/

namespace EventSet

variable {paths : List Path} {source : Source} {set : EventSet}

/-- Where the schema of an event comes from, and that its keys are distinct everywhere. -/
theorem exists_tidy_of_mem_load {documents : List Document}
    (hload : load paths source = .ok set)
    (hread : (distinctPaths paths).mapM (readDocument source) = .ok documents) {event : Event}
    (hevent : event ∈ set.events) :
    ∃ document ∈ documents, ∃ schema, event.source = document.path ∧
      document.events.get? event.name = some schema ∧
      Expands (registered source documents).document? document.root document.path
        (.ofJson schema) event.schema ∧ event.schema.Tidy := by
  obtain ⟨others, document, schema, r, hread', hdocument, hsource, hfind, halike, hresolve⟩ :=
    exists_declaration_of_mem_load hload hevent
  obtain rfl := Except.ok.inj (hread.symm.trans hread')
  have hdistinct := distinct_of_mapM hread
  have hmem : (event.name, schema) ∈ document.events :=
    List.mem_reverse.mp (List.mem_of_find?_eq_some hfind)
  have hevents := Document.distinct_events (hdistinct document hdocument)
  have hexpands := Resolver.expands_of_resolve hresolve
  rw [halike.document?] at hexpands
  have hsite : Site.Distinct (registered source documents).document?
      ⟨document.root, document.path, .ofJson schema⟩ :=
    ⟨fun _ _ ↦ distinct_of_registered hdistinct, hdistinct document hdocument,
      Fragment.tidy_ofJson (hevents.member hmem)⟩
  exact ⟨document, hdocument, schema, hsource, hevents.unique.get?_of_mem hmem, hexpands,
    hexpands.tidy_of_distinct hsite⟩

/-- An artifact is read as the table of its plan exactly if the schema of every event is an object
and is not nested too deep. It is an object exactly if the declaration that the event is made from
leads to one, which a dangling reference does not. -/
theorem rereads_of_load {options : PlanOptions} {plan : Plan} (hload : load paths source = .ok set)
    (hplan : Plan.ofEventSet set options = .ok plan)
    (hnumbers : ∀ event ∈ plan.events, ∀ n ∈ event.schema.numbers, n.ReadsBack) :
    plan.Rereads ∧ ∃ documents, Reads paths source documents ∧
      ∀ planned ∈ plan.events, ∃ event ∈ set.events, ∃ document ∈ documents, ∃ schema,
        planned = PlannedEvent.ofEvent event ∧ event.source = document.path ∧
        document.events.get? event.name = some schema ∧
        (planned.schema.isObject = true ↔
          LeadsToObject (registered source documents).document? document.root document.path
            schema) := by
  obtain ⟨documents, progress, hread, hsound, rfl⟩ := exists_sound_of_load hload
  have hevents := Plan.events_of_ofEventSet hplan
  constructor
  · apply Plan.rereads
    · have hnames := hsound.pairwise_events
      rw [Plan.eventNames, hevents, List.map_map, List.Nodup, List.pairwise_map]
      exact hnames.imp fun hlt ↦ (ne_of_lt hlt).symm
    · rw [hevents, List.forall_mem_map]
      intro event hevent
      obtain ⟨-, -, -, -, -, -, htidy⟩ := exists_tidy_of_mem_load hload hread hevent
      exact htidy.distinct_toJson
    · exact hnumbers
  · refine ⟨documents, reads_of_mapM hread, ?_⟩
    rw [hevents, List.forall_mem_map]
    intro event hevent
    obtain ⟨document, hdocument, schema, hsource, hschema, hexpands, -⟩ :=
      exists_tidy_of_mem_load hload hread hevent
    exact ⟨event, hevent, document, hdocument, schema, rfl, hsource, hschema,
      hexpands.isObject_iff rfl⟩

/-! ### An artifact that is read and one that is not -/

def limited : Json := .object [("maxProperties", .number (.integer 3))]

def limitedRoot : Json := .object [("events", .object [("login", limited)])]

/-- A document with a number in the schema of an event. -/
def limitedSource : Source where
  files := [(⟨"a.json"⟩, limitedRoot.pretty)]

def limitedSet : EventSet where
  events := [Event.ofSchema "login" (.any limited) ⟨"a.json"⟩]

theorem readsBack_limited : ∀ n ∈ limited.numbers, n.ReadsBack := by
  intro n hn
  obtain rfl : n = .integer 3 := by simpa [limited, Json.numbers, Json.numbersOfMembers] using hn
  exact Number.readsBack_integer (by decide) (by decide)

theorem parse_limitedRoot : Json.parse limitedRoot.pretty = .ok limitedRoot := by
  have hsingle {key : String} {value : Json} (hvalue : value.Distinct) :
      (Json.object [(key, value)]).Distinct :=
    .object (List.nodup_singleton key) (List.forall_mem_singleton.mpr hvalue)
  have hdistinct : limitedRoot.Distinct := hsingle (hsingle (hsingle (.number _)))
  have hnumbers : ∀ n ∈ limitedRoot.numbers, Json.ReadAs n n.text := fun n hn ↦
    Number.readsBack_iff.mp (readsBack_limited n hn)
  have hparse := (Json.parse_pretty_append hdistinct hnumbers "" rfl).1 (by decide)
  rwa [String.append_empty] at hparse

theorem resolve_limited (r : Resolver) (root : Json) (current : Path) :
    r.resolve (.ofJson limited) root current = (.ok (.any limited), r) := by
  have hlimited : Fragment.ofJson limited = .any limited := by cbv
  have hrun : (Resolver.resolveWithin 1 root current (.any limited)).run.run r =
      some (.ok (.any limited), r) := by
    rw [Resolver.resolveWithin, Fragment.expand, limited, Json.expand, dif_neg (by decide),
      Json.expandMembers, Json.expand, Json.expandMembers]
    · rfl
    · simp
    · simp
  rw [hlimited]
  exact (Resolver.run_eq_resolve r _ root current hrun).symm

theorem load_limited : load [⟨"a.json"⟩] limitedSource = .ok limitedSet := by
  have hdocument : readDocument limitedSource ⟨"a.json"⟩ = .ok ⟨⟨"a.json"⟩, limitedRoot⟩ :=
    readDocument_of_json rfl (by decide) parse_limitedRoot rfl
  exact load_eq_of_declarations
    (mapM_readDocument (List.pairwise_singleton _ _) (.cons hdocument .nil)) rfl
    (resolve_limited _ _ _)

/-- The artifact of an event whose schema is an object is read as the table of the plan. -/
theorem rereads_of_load_limited : load [⟨"a.json"⟩] limitedSource = .ok limitedSet ∧
    ∃ plan, Plan.ofEventSet limitedSet {} = .ok plan ∧
      (∀ event ∈ plan.events, ∀ n ∈ event.schema.numbers, n.ReadsBack) ∧
      Table.parse (plan.render .json) = .ok (Table.ofPlan plan) := by
  let plan : Plan := { options := {}, events := limitedSet.events.map PlannedEvent.ofEvent }
  have hplan : Plan.ofEventSet limitedSet {} = .ok plan := rfl
  have hnumbers : ∀ event ∈ plan.events, ∀ n ∈ event.schema.numbers, n.ReadsBack :=
    List.forall_mem_singleton.mpr readsBack_limited
  have hobjects : ∀ event ∈ plan.events, event.schema.isObject = true :=
    List.forall_mem_singleton.mpr rfl
  have hshallow : plan.Shallow := List.forall_mem_singleton.mpr (by decide)
  obtain ⟨hrereads, -⟩ := rereads_of_load load_limited hplan hnumbers
  exact ⟨load_limited, plan, hplan, hnumbers, hrereads.same_iff.mpr ⟨hobjects, hshallow⟩⟩

/-- The schema of an event that is declared by a dangling reference is null, and the artifact that
holds it is refused. -/
theorem refused_chain : load [⟨"a.json"⟩] chainSource = .ok chainSet ∧
    ∃ plan, Plan.ofEventSet chainSet {} = .ok plan ∧
      Table.parse (plan.render .json) = .error (.table (.schemaNotObject "login")) := by
  let plan : Plan := { options := {}, events := chainSet.events.map PlannedEvent.ofEvent }
  have hplan : Plan.ofEventSet chainSet {} = .ok plan := rfl
  have hrereads : plan.Rereads := by
    refine Plan.rereads (List.nodup_singleton "login") ?_ ?_
    · exact List.forall_mem_singleton.mpr .null
    · exact List.forall_mem_singleton.mpr fun n hn ↦ absurd hn List.not_mem_nil
  have hshallow : plan.Shallow := List.forall_mem_singleton.mpr (by decide)
  exact ⟨load_chain, plan, hplan, hrereads.notObject hshallow rfl⟩

end EventSet

end EventSchema
