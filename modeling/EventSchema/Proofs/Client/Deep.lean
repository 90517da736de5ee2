import EventSchema.Proofs.Client.Fields
import EventSchema.Proofs.Resolver.Filled
import EventSchema.Proofs.Schema.Misplaced

/-!
# Deep validation of a plan

A dangling reference stands for null in the table of a plan, and null is no schema. So where the
events would be accepted with the empty schema in its place, a client over the table can validate
deeply exactly if null is nowhere misplaced: not where a schema is wanted, nor an object of schemas
(`withDeepValidation_iff_of_load`). Otherwise a single event refuses deep validation for all of them
(`refused_untyped`).
-/

set_option autoImplicit false

namespace EventSchema

namespace Client

variable {client : Client}

/-- Deep validation is enabled exactly if every schema of the table is accepted. -/
theorem exists_withDeepValidation_iff : (∃ deep, client.withDeepValidation = .ok deep) ↔
    ∀ entry ∈ client.table.schemas, ∃ schema, Schema.ofJson entry.2 = .ok schema := by
  rw [withDeepValidation, exists_bind_pure_iff, exists_mapM_eq_ok_iff]
  refine forall₂_congr fun entry _ ↦ ?_
  cases hschema : Schema.ofJson entry.2 <;> simp [hschema]

/-- The first schema that is not accepted is the one that is reported. -/
theorem withDeepValidation_eq_error {before after : Fields} {event : String} {schema : Json}
    {violation : Schema.Violation}
    (htable : client.table.schemas = before ++ (event, schema) :: after)
    (hbefore : ∀ entry ∈ before, ∃ schema, Schema.ofJson entry.2 = .ok schema)
    (hschema : Schema.ofJson schema = .error violation) :
    client.withDeepValidation = .error (.schemaInvalid event violation) := by
  rw [withDeepValidation, htable, @mapM_eq_error _ _ _ _ _ _ _ (.schemaInvalid event violation)]
  · rfl
  · intro entry hentry
    obtain ⟨accepted, haccepted⟩ := hbefore entry hentry
    exact ⟨(entry.1, accepted), by simp only [haccepted]⟩
  · simp only [hschema]

end Client

namespace EventSet

open Schema (Misplaced)

variable {paths : List Path} {source : Source} {set : EventSet} {options : PlanOptions}
  {plan : Plan}

/-- With every dangling reference taken for the empty schema, what the event is declared by is
accepted as a schema. -/
def FillsToSchema (source : Source) (documents : List Document) (event : Event) : Prop :=
  ∀ document ∈ documents, ∀ schema, event.source = document.path →
    document.events.get? event.name = some schema →
      ∃ filled, Fills (registered source documents).document? document.root document.path
        (.ofJson schema) filled ∧ ∃ accepted, Schema.ofJson filled.toJson = .ok accepted

/-- Where the schema of an event comes from: whatever that is filled to, the event has it with
blanks, and there is something. -/
theorem exists_blanked_of_mem_load {documents : List Document}
    (hload : load paths source = .ok set)
    (hread : (distinctPaths paths).mapM (readDocument source) = .ok documents) {event : Event}
    (hevent : event ∈ set.events) :
    ∃ document ∈ documents, ∃ schema, event.source = document.path ∧
      document.events.get? event.name = some schema ∧
      (∃ filled, Fills (registered source documents).document? document.root document.path
        (.ofJson schema) filled) ∧
      ∀ filled, Fills (registered source documents).document? document.root document.path
        (.ofJson schema) filled → filled.toJson.Blanked event.schema.toJson := by
  obtain ⟨document, hdocument, schema, hsource, hschema, hexpands, -⟩ :=
    exists_tidy_of_mem_load hload hread hevent
  have hroots := distinct_of_mapM hread
  have hlibrary : Library.Distinct (registered source documents).document? :=
    fun _ _ ↦ distinct_of_registered hroots
  have hroot := hroots document hdocument
  have htidy : (Fragment.ofJson schema).Tidy :=
    Fragment.tidy_ofJson ((Document.distinct_events hroot).member (Entries.mem_of_get? hschema))
  exact ⟨document, hdocument, schema, hsource, hschema, hexpands.exists_fills hlibrary hroot htidy,
    fun filled hfills ↦ (hfills.blanked hlibrary hroot htidy hexpands).written⟩

/-- Every event has what it is filled to, with blanks. If all that is accepted, a client over the
table of the plan can validate deeply exactly if null is misplaced in no schema, and else the first
event in whose schema it is misplaced is reported. -/
theorem withDeepValidation_iff_of_load (hload : load paths source = .ok set)
    (hplan : Plan.ofEventSet set options = .ok plan) :
    ∃ documents, Reads paths source documents ∧
      (∀ event ∈ set.events, ∃ document ∈ documents, ∃ schema filled,
        event.source = document.path ∧ document.events.get? event.name = some schema ∧
        Fills (registered source documents).document? document.root document.path
          (.ofJson schema) filled ∧ filled.toJson.Blanked event.schema.toJson) ∧
      ((∀ event ∈ set.events, FillsToSchema source documents event) →
        ∀ client : Client, client.table = .ofPlan plan →
          ((∃ deep, client.withDeepValidation = .ok deep) ↔
            ∀ planned ∈ plan.events, ¬Misplaced planned.schema) ∧
          ∀ before planned after, plan.events = before ++ planned :: after →
            (∀ other ∈ before, ¬Misplaced other.schema) → Misplaced planned.schema →
              ∃ violation, client.withDeepValidation =
                .error (.schemaInvalid planned.name violation)) := by
  obtain ⟨documents, progress, hread, hsound, rfl⟩ := exists_sound_of_load hload
  have hnames := nodup_eventNames_of_load hload hplan
  refine ⟨documents, reads_of_mapM hread, fun event hevent ↦ ?_, fun hfills client htable ↦ ?_⟩
  · obtain ⟨document, hdocument, schema, hsource, hschema, ⟨filled, hfilled⟩, hblanked⟩ :=
      exists_blanked_of_mem_load hload hread hevent
    exact ⟨document, hdocument, schema, filled, hsource, hschema, hfilled, hblanked filled hfilled⟩
  · have haccepted : ∀ planned ∈ plan.events,
        (∃ schema, Schema.ofJson planned.schema = .ok schema) ↔ ¬Misplaced planned.schema := by
      rw [Plan.events_of_ofEventSet hplan, List.forall_mem_map]
      intro event hevent
      obtain ⟨document, hdocument, schema, hsource, hschema, -, hblanked⟩ :=
        exists_blanked_of_mem_load hload hread hevent
      obtain ⟨filled, hfilled, haccepted⟩ :=
        hfills event hevent document hdocument schema hsource hschema
      exact Schema.exists_ofJson_iff_of_blanked haccepted (hblanked filled hfilled)
    have hschemas : client.table.schemas =
        plan.events.map fun planned ↦ (planned.name, planned.schema) := by
      rw [htable]
      exact Plan.schemas_eq hnames
    constructor
    · rw [Client.exists_withDeepValidation_iff, hschemas, List.forall_mem_map]
      exact forall₂_congr haccepted
    · intro before planned after hevents hbefore hmisplaced
      rw [hevents, List.map_append, List.map_cons] at hschemas
      have hnone : ¬∃ schema, Schema.ofJson planned.schema = .ok schema := fun hsome ↦
        (haccepted planned (by simp [hevents])).mp hsome hmisplaced
      cases hresult : Schema.ofJson planned.schema with
      | ok schema => exact absurd ⟨schema, hresult⟩ hnone
      | error violation =>
        refine ⟨violation, Client.withDeepValidation_eq_error hschemas ?_ hresult⟩
        rw [List.forall_mem_map]
        exact fun other hother ↦
          (haccepted other (by simp [hevents, hother])).mpr (hbefore other hother)

/-! ### A dangling reference that does no harm, and one that does -/

def missingReference : Json := .object [("$ref", .string "#/missing")]

theorem parse?_missing : Reference.parse? "#/missing" = some (.internal ⟨["missing"]⟩) := by
  decide +kernel

theorem ofJson_missingReference :
    Fragment.ofJson missingReference = .reference "#/missing" := by cbv

theorem expand_missingReference {follow : String → Option Fragment} {fragment : Fragment}
    (hfollow : follow "#/missing" = some fragment) :
    missingReference.expand follow = some fragment.toJson := by
  have hnode : (Fragment.ofJson missingReference).expand follow = some fragment := by
    rw [ofJson_missingReference, Fragment.expand, hfollow]
  rw [missingReference] at hnode ⊢
  rw [Json.expand, dif_pos (by decide)]
  simp only [hnode]
  rfl

def defaultText : String :=
  "\x7b\"events\":\x7b\"login\":\x7b\"type\":\"object\"," ++
    "\"default\":\x7b\"$ref\":\"#/missing\"\x7d\x7d\x7d\x7d"

def defaultSchema : Json := .object [("type", .string "object"), ("default", missingReference)]

def defaultRoot : Json := .object [("events", .object [("login", defaultSchema)])]

/-- A document with a dangling reference where any value is allowed. -/
def defaultSource : Source where
  files := [(⟨"a.json"⟩, defaultText)]

def defaultEvent : Event :=
  Event.ofSchema "login" (.object none none none [("default", .null)]) ⟨"a.json"⟩

def defaultPlan : Plan where
  options := {}
  events := [.ofEvent defaultEvent]

theorem ofJson_defaultSchema : Fragment.ofJson defaultSchema =
    .object none none none [("default", missingReference)] := by cbv

theorem readDocument_default :
    readDocument defaultSource ⟨"a.json"⟩ = .ok ⟨⟨"a.json"⟩, defaultRoot⟩ := by
  have hparse : Json.parse defaultText = .ok defaultRoot := by cbv
  exact readDocument_of_json rfl (by decide) hparse rfl

theorem load_default : ∃ missing,
    load [⟨"a.json"⟩] defaultSource = .ok { events := [defaultEvent], missing } := by
  have hstored : Stored (registered defaultSource [⟨⟨"a.json"⟩, defaultRoot⟩]).document?
      defaultRoot ⟨"a.json"⟩ := ⟨rfl, Path.normalize_directory (by decide +kernel)⟩
  have hdangling : Expands (registered defaultSource [⟨⟨"a.json"⟩, defaultRoot⟩]).document?
      defaultRoot ⟨"a.json"⟩ (.reference "#/missing") .absent := .dangling parse?_missing rfl
  refine exists_load_of_expands readDocument_default rfl hstored ?_
  rw [ofJson_defaultSchema]
  refine .object .none .none (.cons ?_ .nil)
  exact .node rfl (ofJson_missingReference ▸ hdangling)

theorem fillsToSchema_default {documents : List Document}
    (hreads : Reads [⟨"a.json"⟩] defaultSource documents) :
    FillsToSchema defaultSource documents defaultEvent := by
  obtain rfl := hreads.eq_singleton readDocument_default
  intro document hdocument schema _ hschema
  obtain rfl := List.mem_singleton.mp hdocument
  obtain rfl : schema = defaultSchema := Option.some.inj (hschema.symm.trans rfl)
  refine ⟨.object none none none [("default", .object [])], ⟨2, ?_⟩, ?_⟩
  · rw [ofJson_defaultSchema, fillWithin, Fragment.expand, Fragment.expandProperties,
      Fragment.expandPart, Json.expandMembers, Json.expandMembers,
      expand_missingReference (fillReference_of_dangling parse?_missing rfl)]
    rfl
  · refine Schema.exists_ofJson_iff.mpr ⟨rfl, ?_⟩
    exact (Schema.decides_isSchema _ _ (Nat.le_refl _) ⟨[]⟩).mp (by decide +kernel)

/-- Null may stand where any value is allowed. -/
theorem withDeepValidation_iff_of_load_default :
    (∃ missing, load [⟨"a.json"⟩] defaultSource = .ok { events := [defaultEvent], missing } ∧
      Plan.ofEventSet { events := [defaultEvent], missing } {} = .ok defaultPlan) ∧
      ∀ client : Client, client.table = .ofPlan defaultPlan →
        ∃ deep, client.withDeepValidation = .ok deep := by
  obtain ⟨missing, hload⟩ := load_default
  have hplan : Plan.ofEventSet { events := [defaultEvent], missing } {} = .ok defaultPlan := rfl
  refine ⟨⟨missing, hload, hplan⟩, fun client htable ↦ ?_⟩
  obtain ⟨documents, hreads, -, hdeep⟩ := withDeepValidation_iff_of_load hload hplan
  have hfills := List.forall_mem_singleton.mpr (fillsToSchema_default hreads)
  refine (hdeep hfills client htable).1.mpr (List.forall_mem_singleton.mpr fun hmisplaced ↦ ?_)
  refine hmisplaced.not_isSchema ?_
  have hschema : (PlannedEvent.ofEvent defaultEvent).schema =
      .object [("type", .string "object"), ("default", .null)] := rfl
  rw [hschema]
  exact (Schema.decides_isSchema _ _ (Nat.le_refl _) ⟨[]⟩).mp (by decide +kernel)

def untypedText : String :=
  "\x7b\"events\":\x7b\"login\":\x7b\"type\":\"object\",\"properties\":\x7b" ++
    "\"a\":\x7b\"$ref\":\"#/missing\"\x7d\x7d\x7d\x7d\x7d"

def untypedSchema : Json :=
  .object [("type", .string "object"), ("properties", .object [("a", missingReference)])]

def untypedRoot : Json := .object [("events", .object [("login", untypedSchema)])]

/-- A document with a dangling reference where a schema is wanted. -/
def untypedSource : Source where
  files := [(⟨"a.json"⟩, untypedText)]

def untypedEvent : Event :=
  Event.ofSchema "login" (.object (some [("a", .absent)]) none none []) ⟨"a.json"⟩

def untypedPlan : Plan where
  options := {}
  events := [.ofEvent untypedEvent]

theorem ofJson_untypedSchema : Fragment.ofJson untypedSchema =
    .object (some [("a", .reference "#/missing")]) none none [] := by cbv

theorem readDocument_untyped :
    readDocument untypedSource ⟨"a.json"⟩ = .ok ⟨⟨"a.json"⟩, untypedRoot⟩ := by
  have hparse : Json.parse untypedText = .ok untypedRoot := by cbv
  exact readDocument_of_json rfl (by decide) hparse rfl

theorem load_untyped : ∃ missing,
    load [⟨"a.json"⟩] untypedSource = .ok { events := [untypedEvent], missing } := by
  have hstored : Stored (registered untypedSource [⟨⟨"a.json"⟩, untypedRoot⟩]).document?
      untypedRoot ⟨"a.json"⟩ := ⟨rfl, Path.normalize_directory (by decide +kernel)⟩
  refine exists_load_of_expands readDocument_untyped rfl hstored ?_
  rw [ofJson_untypedSchema]
  exact .object (.some (.cons (.dangling parse?_missing rfl) .nil)) .none .nil

theorem fillsToSchema_untyped :
    FillsToSchema untypedSource [⟨⟨"a.json"⟩, untypedRoot⟩] untypedEvent := by
  intro document hdocument schema _ hschema
  obtain rfl := List.mem_singleton.mp hdocument
  obtain rfl : schema = untypedSchema := Option.some.inj (hschema.symm.trans rfl)
  refine ⟨.object (some [("a", .any (.object []))]) none none [], ⟨2, ?_⟩, ?_⟩
  · rw [ofJson_untypedSchema, fillWithin, Fragment.expand, Fragment.expandProperties,
      Fragment.expandMembers, Fragment.expandMembers, Fragment.expand,
      fillReference_of_dangling parse?_missing rfl, Fragment.expandPart, Json.expandMembers]
    rfl
  · refine Schema.exists_ofJson_iff.mpr ⟨rfl, ?_⟩
    exact (Schema.decides_isSchema _ _ (Nat.le_refl _) ⟨[]⟩).mp (by decide +kernel)

/-- The empty schema would do in place of the dangling reference, and no client over the table of
the plan can validate deeply, since null is there. -/
theorem refused_untyped : ∃ missing,
    load [⟨"a.json"⟩] untypedSource = .ok { events := [untypedEvent], missing } ∧
      Plan.ofEventSet { events := [untypedEvent], missing } {} = .ok untypedPlan ∧
      Reads [⟨"a.json"⟩] untypedSource [⟨⟨"a.json"⟩, untypedRoot⟩] ∧
      FillsToSchema untypedSource [⟨⟨"a.json"⟩, untypedRoot⟩] untypedEvent ∧
      ∀ client : Client, client.table = .ofPlan untypedPlan →
        ¬∃ deep, client.withDeepValidation = .ok deep := by
  obtain ⟨missing, hload⟩ := load_untyped
  have hreads := reads_of_mapM
    (mapM_readDocument (List.pairwise_singleton _ _) (.cons readDocument_untyped .nil))
  refine ⟨missing, hload, rfl, hreads, fillsToSchema_untyped, fun client htable hdeep ↦ ?_⟩
  rw [Client.exists_withDeepValidation_iff, htable] at hdeep
  obtain ⟨schema, hschema⟩ := hdeep ("login", untypedEvent.schema.toJson) List.mem_cons_self
  have hproperties : ("properties", Schema.Demand.schemasByName false) ∈ Schema.demands := by decide
  have hmisplaced : Misplaced untypedEvent.schema.toJson :=
    .part hproperties rfl List.mem_cons_self .schema
  exact hmisplaced.not_isSchema (Schema.exists_ofJson_iff.mp ⟨schema, hschema⟩).2

end EventSet

end EventSchema
