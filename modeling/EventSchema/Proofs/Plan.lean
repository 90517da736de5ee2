import EventSchema.Plan
import EventSchema.Proofs.Entries

/-!
# Events of a plan

There is a plan for a set of events exactly if no two of them share a type name
(`exists_ofEventSet_iff`), and it has all of them. Where no two share a name, the schemas of the
plan are those of its events, in order (`schemas_eq`).
-/

set_option autoImplicit false

namespace EventSchema.Plan

theorem collision?_eq_none_iff {seen events : List Event} :
    collision? seen events = none ↔ (events.map Event.typeName).Nodup ∧
      ∀ event ∈ events, ∀ first ∈ seen, first.typeName ≠ event.typeName := by
  induction events generalizing seen with
  | nil => simp [collision?]
  | cons event rest ih =>
    rw [collision?]
    cases hfind : seen.find? (·.typeName = event.typeName) with
    | some first =>
      have hfirst : first ∈ seen := List.mem_of_find?_eq_some hfind
      have hsame : first.typeName = event.typeName := by simpa using List.find?_some hfind
      refine iff_of_false (by simp) ?_
      rintro ⟨-, hapart⟩
      exact hapart event List.mem_cons_self first hfirst hsame
    | none =>
      have hnew : ∀ first ∈ seen, first.typeName ≠ event.typeName := by simpa using hfind
      simp only [ih, List.map_cons, List.nodup_cons, List.forall_mem_cons, List.mem_map,
        not_exists, not_and]
      constructor
      · rintro ⟨hnodup, hapart⟩
        have hevent (other : Event) (hother : other ∈ rest) : other.typeName ≠ event.typeName :=
          fun hsame ↦ (hapart other hother).1 hsame.symm
        exact ⟨⟨hevent, hnodup⟩, hnew, fun other hother ↦ (hapart other hother).2⟩
      · rintro ⟨⟨hevent, hnodup⟩, -, hapart⟩
        refine ⟨hnodup, fun other hother ↦ ⟨?_, hapart other hother⟩⟩
        exact fun hsame ↦ hevent other hother hsame.symm

/-- There is a plan, whatever the options, exactly if no type name is used twice. -/
theorem exists_ofEventSet_iff {set : EventSet} {options : PlanOptions} :
    (∃ plan, ofEventSet set options = .ok plan) ↔ (set.events.map Event.typeName).Nodup := by
  have hnone : collision? [] set.events = none ↔ (set.events.map Event.typeName).Nodup := by
    rw [collision?_eq_none_iff]
    exact and_iff_left fun _ _ _ hfirst ↦ absurd hfirst List.not_mem_nil
  rw [← hnone, ofEventSet]
  cases collision? [] set.events with
  | none => exact iff_of_true ⟨_, rfl⟩ rfl
  | some pair => exact iff_of_false (by simp) (by simp)

theorem events_of_ofEventSet {set : EventSet} {options : PlanOptions} {plan : Plan}
    (hplan : ofEventSet set options = .ok plan) :
    plan.events = set.events.map PlannedEvent.ofEvent := by
  rw [ofEventSet] at hplan
  split at hplan
  · cases hplan
  · cases hplan
    rfl

theorem options_of_ofEventSet {set : EventSet} {options : PlanOptions} {plan : Plan}
    (hplan : ofEventSet set options = .ok plan) : plan.options = options := by
  rw [ofEventSet] at hplan
  split at hplan
  · cases hplan
  · cases hplan
    rfl

theorem schemas_eq {plan : Plan} (hnames : plan.eventNames.Nodup) :
    plan.schemas = plan.events.map fun event ↦ (event.name, event.schema) := by
  have hunique : Entries.Unique ([] ++ plan.events.map fun event ↦ (event.name, event.schema)) := by
    rw [Entries.Unique, List.nil_append, Entries.keys, List.map_map]
    exact hnames
  exact Entries.extend_eq_append hunique

end EventSchema.Plan
