import EventSchema.Proofs.Client.Fields
import EventSchema.Proofs.Python.Declaration

/-!
# Keys of event types

What the artifact declares for an event has the names of its fields as keys, in order, if it is
declared by a call or if none of them is private, and never otherwise, since a class puts its own
name in front of a private one (`keys_declared_iff`). The field names of a loaded event are all
different, and its types hold no key twice, so that this goes for every event of a plan
(`declares_of_load`). A field named `__id` gets another key (`mangled_private`).
-/

set_option autoImplicit false

namespace EventSchema

namespace Python

/-! ### Names of keys -/

section Keys

variable {event : PlannedEvent} {className name : String}

theorem mangle_of_not_isPrivate (hname : isPrivate name = false) :
    mangle className name = name := by
  rw [mangle, hname, Bool.false_and, if_neg Bool.false_ne_true]

theorem ne_underscore_of_isWord {c : Char} (hc : Text.isWord c = true) : c ≠ '_' := by
  rintro rfl
  exact absurd hc (by decide)

theorem mangle_of_isPrivate (htype : event.typeName = TypeName.ofEvent event.name)
    (hname : isPrivate name = true) :
    mangle event.typeName name = "_" ++ event.typeName ++ name := by
  obtain ⟨first, more, hchars, hfirst⟩ := exists_cons_ofEvent event.name
  rw [← htype] at hchars
  have hbare : event.typeName.toList.dropWhile (· = '_') = event.typeName.toList := by
    rw [hchars, List.dropWhile_cons_of_neg (by simpa using ne_underscore_of_isWord hfirst)]
  have hempty : event.typeName.toList.isEmpty = false := by rw [hchars, List.isEmpty_cons]
  rw [mangle, hbare, hname, hempty, Bool.not_false, Bool.true_and, if_pos rfl, ← String.toList_inj]
  simp

/-- A private name is no key, since no name is put in front of another that starts with an
underscore. -/
theorem mangle_ne_of_isPrivate (htype : event.typeName = TypeName.ofEvent event.name)
    (hname : isPrivate name = true) (other : String) : mangle event.typeName other ≠ name := by
  intro hmangle
  by_cases hother : isPrivate other = true
  · rw [mangle_of_isPrivate htype hother] at hmangle
    obtain ⟨first, more, hchars, hfirst⟩ := exists_cons_ofEvent event.name
    have hmangled : name.toList = '_' :: first :: (more ++ other.toList) := by
      rw [← hmangle, htype]
      simp [hchars]
    rw [isPrivate, Bool.and_eq_true] at hname
    obtain ⟨tail, htail⟩ := List.isPrefixOf_iff_prefix.mp hname.1
    rw [hmangled, List.cons_append, List.cons_append] at htail
    injection htail with _ htail
    injection htail with hsecond
    exact ne_underscore_of_isWord hfirst hsecond.symm
  · rw [Bool.not_eq_true] at hother
    rw [mangle_of_not_isPrivate hother] at hmangle
    rw [hmangle, hname] at hother
    cases hother

/-- The keys are the names of the fields exactly if no class mangles one of them. -/
theorem keys_declared_iff (htype : event.typeName = TypeName.ofEvent event.name)
    (hnames : (event.fields.map Field.name).Nodup) :
    (declared event).entries.keys = event.fields.map Field.name ↔
      hasClassSyntax event = false ∨ ∀ field ∈ event.fields, isPrivate field.name = false := by
  constructor
  · intro hkeys
    by_contra hmangled
    push Not at hmangled
    obtain ⟨hclass, field, hfield, hprivate⟩ := hmangled
    rw [Bool.ne_false_iff] at hclass hprivate
    have hkey : field.name ∈ (declared event).entries.keys := hkeys ▸ List.mem_map_of_mem hfield
    obtain ⟨entry, hentry, hname⟩ := List.mem_map.mp hkey
    obtain hentry | hentry := Entries.mem_extend hentry
    · exact absurd hentry List.not_mem_nil
    · obtain ⟨other, -, rfl⟩ := List.mem_map.mp hentry
      rw [hclass, if_pos rfl] at hname
      exact mangle_ne_of_isPrivate htype hprivate other.name hname
  · intro hplain
    have hentries : (event.fields.map fun field ↦
        (if hasClassSyntax event then mangle event.typeName field.name else field.name,
          field.type)) = event.fields.map fun field ↦ (field.name, field.type) := by
      refine List.map_congr_left fun field hfield ↦ ?_
      obtain hcall | hplain := hplain
      · rw [hcall, if_neg Bool.false_ne_true]
      · rw [mangle_of_not_isPrivate (hplain field hfield), ite_self]
    have hunique :
        Entries.Unique ([] ++ event.fields.map fun field ↦ (field.name, field.type)) := by
      rw [Entries.Unique, List.nil_append, Entries.keys, List.map_map]
      exact hnames
    rw [declared, hentries, Entries.ofList, Entries.extend_eq_append hunique, List.nil_append,
      Entries.keys, List.map_map]
    rfl

end Keys

/-! ### Declarations in an artifact -/

theorem indented?_lineChars {line : String} {c : Char} (hline : line.toList.head? = some c)
    (hc : c ≠ ' ' ∧ c ≠ '\n') (more : List String) :
    indented? (lineChars ("" :: line :: more)) = none := by
  obtain ⟨chars, hchars⟩ := List.head?_eq_some_iff.mp hline
  have htext : (lineChars ("" :: line :: more)).dropWhile (· = '\n') =
      c :: (chars ++ '\n' :: lineChars more) := by
    rw [lineChars_cons, lineChars_cons, hchars]
    simp [hc.2]
  rw [indented?, htext, after?, if_neg]
  simp [hc.1.symm]

/-- The lines of a body do not go on into the next declaration. -/
theorem indented?_eventType {event : PlannedEvent}
    (htype : event.typeName = TypeName.ofEvent event.name) (more : List String) :
    indented? (lineChars ("" :: (eventType event ++ more))) = none := by
  rw [eventType]
  split_ifs
  · exact indented?_lineChars (c := 'c') (by simp) (by decide) _
  · obtain ⟨first, chars, hchars, hfirst⟩ := exists_cons_ofEvent event.name
    have hc : first ≠ ' ' ∧ first ≠ '\n' := by
      constructor
      all_goals
        rintro rfl
        exact absurd hfirst (by decide)
    rw [← htype] at hchars
    exact indented?_lineChars (c := first) (by simp [hchars]) hc _

/-- Every event has lines of its own in the artifact, and what follows them does not go on with a
line of a body. -/
theorem exists_lines_eq {plan : Plan}
    (htypes : ∀ event ∈ plan.events, event.typeName = TypeName.ofEvent event.name)
    {event : PlannedEvent} (hevent : event ∈ plan.events) :
    ∃ front back, lines plan = front ++ (eventType event ++ back) ∧
      indented? (lineChars back) = none := by
  obtain ⟨before, after, hevents⟩ := List.append_of_mem hevent
  obtain ⟨tail, htail⟩ : ∃ tail, lines plan = header plan.options ++
      (plan.events.flatMap fun event ↦ "" :: eventType event) ++
        "" :: ("EventName = " ++ eventNameType plan.events) :: tail := by
    simp [lines]
  rw [hevents, List.flatMap_append, List.flatMap_cons] at htail
  refine ⟨header plan.options ++ (before.flatMap fun event ↦ "" :: eventType event) ++ [""],
    (after.flatMap fun event ↦ "" :: eventType event) ++
      "" :: ("EventName = " ++ eventNameType plan.events) :: tail, ?_, ?_⟩
  · rw [htail, hevents]
    simp
  · cases after with
    | nil => exact indented?_lineChars (c := 'E') (by simp) (by decide) _
    | cons next after =>
      have hnext : next ∈ plan.events := by simp [hevents]
      rw [List.flatMap_cons, List.append_assoc]
      exact indented?_eventType (htypes next hnext) _

theorem exists_eventType {plan : Plan}
    (htypes : ∀ event ∈ plan.events, event.typeName = TypeName.ofEvent event.name)
    {event : PlannedEvent} (hevent : event ∈ plan.events)
    (hdistinct : ∀ field ∈ event.fields, field.type.Distinct) :
    ∃ front back, (plan.render .python).toList =
        lineChars front ++ (lineChars (eventType event) ++ lineChars back) ∧
      readTypedDict (lineChars (eventType event) ++ lineChars back) =
        if isReadable event then some (declared event, lineChars back) else none := by
  obtain ⟨front, back, hlines, hback⟩ := exists_lines_eq htypes hevent
  refine ⟨front, back, ?_, readTypedDict_eventType (htypes event hevent) hdistinct hback⟩
  rw [Plan.render, toList_render, hlines, lineChars_append, lineChars_append]

end Python

/-! ### The events of a load -/

theorem TypeExpr.distinct_ofFragment {fragment : Fragment} (htidy : fragment.Tidy) :
    (ofFragment fragment).Distinct := by
  induction htidy with
  | @intro fragment _ hvalues _ ih =>
    cases fragment with
    | primitive kind choices annotations =>
      rw [ofFragment]
      unfold ofPrimitive
      split
      · exact fun value hvalue ↦ hvalues value (List.mem_append_left _ hvalue)
      all_goals trivial
    | array items annotations =>
      cases items with
      | none => trivial
      | some item => exact ih item (List.mem_singleton_self item)
    | _ => trivial

theorem Field.distinct_type_ofProperty {fragment : Fragment} (htidy : fragment.Tidy)
    (required : List String) (name : String) :
    (ofProperty required name fragment).type.Distinct := by
  have hdistinct := TypeExpr.distinct_ofFragment htidy
  rw [ofProperty]
  cases required.contains name <;> exact hdistinct

namespace EventSet

variable {paths : List Path} {source : Source} {set : EventSet} {options : PlanOptions}
  {plan : Plan}

/-- The fields of a planned event have distinct names, and no key of a value twice in a type. -/
theorem distinct_fields_of_load (hload : load paths source = .ok set) {event : Event}
    (hevent : event ∈ set.events) :
    ((PlannedEvent.ofEvent event).fields.map Field.name).Nodup ∧
      ∀ field ∈ (PlannedEvent.ofEvent event).fields, field.type.Distinct := by
  obtain ⟨documents, progress, hread, -, -⟩ := exists_sound_of_load hload
  obtain ⟨-, -, -, -, -, -, htidy⟩ := exists_tidy_of_mem_load hload hread hevent
  constructor
  · have hnames := htidy.unique_properties
    rw [ofSchema_of_mem_load hload hevent]
    simp only [PlannedEvent.ofEvent, List.map_map]
    exact hnames
  · intro field hfield
    obtain ⟨name, fragment, hproperty, rfl⟩ := exists_property_of_mem_fields hload hevent hfield
    exact Field.distinct_type_ofProperty (htidy.of_mem_properties hproperty) _ _

/-- The artifact declares a typed dictionary for every event, which Python reads exactly if the name
of its type is an identifier and its body, if it is a class, holds nothing that is refused there.
The keys are the names of the fields exactly if it is a call or no name is private. A private name
is a key with the name of the type in front of it. -/
theorem declares_of_load (hload : load paths source = .ok set)
    (hplan : Plan.ofEventSet set options = .ok plan) :
    ∀ planned ∈ plan.events, ∃ front back,
      (plan.render .python).toList =
        Python.lineChars front ++
          (Python.lineChars (Python.eventType planned) ++ Python.lineChars back) ∧
      Python.readTypedDict
          (Python.lineChars (Python.eventType planned) ++ Python.lineChars back) =
        (if Python.isReadable planned then some (Python.declared planned, Python.lineChars back)
          else none) ∧
      ((Python.declared planned).entries.keys = planned.fields.map Field.name ↔
        Python.hasClassSyntax planned = false ∨
          ∀ field ∈ planned.fields, Python.isPrivate field.name = false) ∧
      ∀ field ∈ planned.fields, Python.isPrivate field.name = true →
        Python.mangle planned.typeName field.name = "_" ++ planned.typeName ++ field.name := by
  intro planned hplanned
  have hevents := Plan.events_of_ofEventSet hplan
  have htypes : ∀ event ∈ plan.events, event.typeName = TypeName.ofEvent event.name := by
    rw [hevents, List.forall_mem_map]
    exact typeName_of_load hload
  have htype := htypes planned hplanned
  have hmem := hplanned
  rw [hevents] at hmem
  obtain ⟨event, hevent, rfl⟩ := List.mem_map.mp hmem
  obtain ⟨hnames, hdistinct⟩ := distinct_fields_of_load hload hevent
  obtain ⟨front, back, htext, hread⟩ := Python.exists_eventType htypes hplanned hdistinct
  refine ⟨front, back, htext, hread, Python.keys_declared_iff htype hnames, ?_⟩
  exact fun field _ hprivate ↦ Python.mangle_of_isPrivate htype hprivate

/-- One field of two values, which is the one key of what is declared. -/
theorem declares_of_load_plans :
    (∃ missing, load [⟨"a.json"⟩] plansSource = .ok { events := [plansEvent], missing } ∧
      Plan.ofEventSet { events := [plansEvent], missing } {} = .ok plansPlan) ∧
      ∃ text type rest, Python.readTypedDict text = some (type, rest) ∧
        type.name = "LoginProperties" ∧ type.entries.keys = ["plan"] := by
  obtain ⟨missing, hload⟩ := load_plans
  have hplan : Plan.ofEventSet { events := [plansEvent], missing } {} = .ok plansPlan := rfl
  refine ⟨⟨missing, hload, hplan⟩, ?_⟩
  obtain ⟨front, back, -, hread, hkeys, -⟩ :=
    declares_of_load hload hplan (.ofEvent plansEvent) List.mem_cons_self
  have hreadable : Python.isReadable (.ofEvent plansEvent) = true := by decide +kernel
  rw [if_pos hreadable] at hread
  exact ⟨_, _, _, hread, by decide +kernel, hkeys.mpr (.inr (by decide +kernel))⟩

/-! ### A field with a private name -/

def privateText : String :=
  "\x7b\"events\":\x7b\"login\":\x7b\"type\":\"object\",\"properties\":\x7b\"__id\":\x7b" ++
    "\"type\":\"string\"\x7d\x7d,\"required\":[\"__id\"]\x7d\x7d\x7d"

def privateSchema : Json :=
  .object [("type", .string "object"),
    ("properties", .object [("__id", .object [("type", .string "string")])]),
    ("required", .array [.string "__id"])]

def privateRoot : Json := .object [("events", .object [("login", privateSchema)])]

def privateSource : Source where
  files := [(⟨"a.json"⟩, privateText)]

def privateFragment : Fragment :=
  .object (some [("__id", .primitive .string none [])]) (some ["__id"]) none []

def privateEvent : Event := Event.ofSchema "login" privateFragment ⟨"a.json"⟩

def privatePlan : Plan where
  options := {}
  events := [.ofEvent privateEvent]

theorem load_private : ∃ missing,
    load [⟨"a.json"⟩] privateSource = .ok { events := [privateEvent], missing } := by
  have hparse : Json.parse privateText = .ok privateRoot := by cbv
  have hread : readDocument privateSource ⟨"a.json"⟩ = .ok ⟨⟨"a.json"⟩, privateRoot⟩ :=
    readDocument_of_json rfl (by decide) hparse rfl
  have hfragment : Fragment.ofJson privateSchema = privateFragment := by cbv
  have hstored : Stored (registered privateSource [⟨⟨"a.json"⟩, privateRoot⟩]).document?
      privateRoot ⟨"a.json"⟩ := ⟨rfl, Path.normalize_directory (by decide +kernel)⟩
  refine exists_load_of_expands hread rfl hstored ?_
  rw [hfragment]
  exact .object (.some (.cons (.primitive .none .nil) .nil)) .none .nil

/-- A class declares a key that is not the name of the field. -/
theorem mangled_private :
    (∃ missing, load [⟨"a.json"⟩] privateSource = .ok { events := [privateEvent], missing } ∧
      Plan.ofEventSet { events := [privateEvent], missing } {} = .ok privatePlan) ∧
      (PlannedEvent.ofEvent privateEvent).fields.map Field.name = ["__id"] ∧
      ∃ front text, (privatePlan.render .python).toList = Python.lineChars front ++ text ∧
        ∃ type rest, Python.readTypedDict text = some (type, rest) ∧
          type.name = "LoginProperties" ∧ type.entries.keys = ["_LoginProperties__id"] := by
  obtain ⟨missing, hload⟩ := load_private
  refine ⟨⟨missing, hload, rfl⟩, rfl, ?_⟩
  have htypes : ∀ event ∈ privatePlan.events, event.typeName = TypeName.ofEvent event.name :=
    List.forall_mem_singleton.mpr rfl
  have hdistinct : ∀ field ∈ (PlannedEvent.ofEvent privateEvent).fields, field.type.Distinct :=
    List.forall_mem_singleton.mpr trivial
  obtain ⟨front, back, htext, hread⟩ :=
    Python.exists_eventType htypes List.mem_cons_self hdistinct
  have hreadable : Python.isReadable (.ofEvent privateEvent) = true := by decide +kernel
  rw [if_pos hreadable] at hread
  exact ⟨front, _, htext, _, _, hread, by decide +kernel, by decide +kernel⟩

end EventSet

end EventSchema
