import EventSchema.Proofs.EventSet.Load

/-!
# The history of a resolver

Between calls a resolver keeps the documents that it read, the places that it follows and the
missing references. None of them shows in a later answer: whatever was called before, a resolver is
alike to a fresh one with the same registrations (`alike_afterRegistrations`), and so answers alike.
If the registered documents are those that the source holds anyway, it is alike to the bare
resolver, so what a load gives an event does not depend on the other files of the run.
-/

set_option autoImplicit false

namespace EventSchema

/-- Reading the path anew gives the document. -/
def Source.Holds (source : Source) (path : Path) (root : Json) : Prop :=
  source.document? path.normalize = .ok (some root)

namespace Resolver

/-! ### Calls -/

/-- What can be asked of a resolver. -/
inductive Call where
  | register (path : Path) (root : Json)
  | resolve (fragment : Fragment) (root : Json) (current : Path)
  | takeMissing

def Call.isRegistration : Call → Bool
  | .register .. => true
  | _ => false

/-- The resolver that a call leaves behind. -/
def call (r : Resolver) : Call → Resolver
  | .register path root => r.register path root
  | .resolve fragment root current => (r.resolve fragment root current).2
  | .takeMissing => r.takeMissing.2

/-- A new resolver after some calls. -/
def after (source : Source) (calls : List Call) : Resolver := calls.foldl call { source }

/-- A new resolver after just the registrations among some calls. -/
def afterRegistrations (source : Source) (calls : List Call) : Resolver :=
  after source (calls.filter Call.isRegistration)

theorem Alike.register {r s : Resolver} (halike : Alike r s) (path : Path) (root : Json) :
    Alike (r.register path root) (s.register path root) := by
  refine ⟨funext fun other ↦ ?_, halike.active⟩
  rw [document?_register, document?_register, halike.document?]

/-- Registering what a path leads to anyway changes nothing. -/
theorem alike_register {r : Resolver} {path : Path} {root : Json}
    (hdocument : r.document? path.normalize = .ok (some root)) :
    Alike r (r.register path root) := by
  refine ⟨funext fun other ↦ ?_, rfl⟩
  rw [document?_register]
  split_ifs with h
  · rw [h, hdocument]
  · rfl

theorem alike_call {r : Resolver} {step : Call} (hstep : step.isRegistration = false) :
    Alike r (r.call step) := by
  cases step with
  | register path root => exact absurd hstep (by simp [Call.isRegistration])
  | resolve fragment root current => exact alike_resolve r fragment root current
  | takeMissing => exact ⟨rfl, rfl⟩

theorem active_call (r : Resolver) (step : Call) : (r.call step).active = r.active := by
  cases step with
  | register path root => rfl
  | resolve fragment root current => exact (alike_resolve r fragment root current).active
  | takeMissing => rfl

theorem active_after (source : Source) (calls : List Call) : (after source calls).active = [] := by
  rw [after]
  induction calls using List.reverseRecOn with
  | nil => rfl
  | append_singleton calls step ih => rw [List.foldl_concat, active_call, ih]

/-- Of the calls only the registrations matter. -/
theorem alike_afterRegistrations (source : Source) (calls : List Call) :
    Alike (afterRegistrations source calls) (after source calls) := by
  rw [afterRegistrations, after, after]
  induction calls using List.reverseRecOn with
  | nil => exact .refl _
  | append_singleton calls step ih =>
    rw [List.filter_append, List.foldl_append, List.foldl_append, List.foldl_cons, List.foldl_nil]
    cases hstep : step.isRegistration with
    | false =>
      rw [List.filter_cons_of_neg (by simp [hstep])]
      exact ih.trans (alike_call hstep)
    | true =>
      rw [List.filter_cons_of_pos hstep, List.filter_nil, List.foldl_cons, List.foldl_nil]
      cases step with
      | register path root => exact ih.register path root
      | resolve fragment root current => exact absurd hstep Bool.false_ne_true
      | takeMissing => exact absurd hstep Bool.false_ne_true

theorem missing_afterRegistrations (source : Source) (calls : List Call) :
    (afterRegistrations source calls).missing = [] := by
  rw [afterRegistrations, after]
  induction calls using List.reverseRecOn with
  | nil => rfl
  | append_singleton calls step ih =>
    cases step with
    | register path root =>
      rw [List.filter_append, List.foldl_append]
      exact ih
    | resolve fragment root current =>
      rw [List.filter_append, List.foldl_append]
      exact ih
    | takeMissing =>
      rw [List.filter_append, List.foldl_append]
      exact ih

/-- Registrations of what the source holds anyway do not matter either. -/
theorem alike_after {source : Source} {calls : List Call}
    (hheld : ∀ path root, .register path root ∈ calls → source.Holds path root) :
    Alike { source } (after source calls) := by
  rw [after]
  induction calls using List.reverseRecOn with
  | nil => exact .refl _
  | append_singleton calls step ih =>
    rw [List.foldl_concat]
    have hbefore := ih fun path root hmem ↦ hheld path root (List.mem_append_left _ hmem)
    refine hbefore.trans ?_
    cases step with
    | register path root =>
      refine alike_register ?_
      rw [hbefore.document?]
      exact hheld path root (List.mem_append_right _ List.mem_cons_self)
    | resolve fragment root current => exact alike_call rfl
    | takeMissing => exact alike_call rfl

/-! ### Loads -/

theorem registered_eq_after (source : Source) (documents : List Document) :
    EventSet.registered source documents =
      after source (documents.map fun document ↦ .register document.path document.root) := by
  rw [EventSet.registered, after, List.foldl_map]
  rfl

/-- What a bare resolver makes of the last declaration of an event in its source. -/
theorem exists_resolve_of_mem_load {paths : List Path} {source : Source} {set : EventSet}
    (hload : EventSet.load paths source = .ok set)
    (hheld : ∀ path ∈ paths, ∀ document, EventSet.readDocument source path = .ok document →
      source.Holds path document.root) {event : Event} (hevent : event ∈ set.events) :
    ∃ document schema, EventSet.readDocument source event.source = .ok document ∧
      document.events.reverse.find? (fun entry ↦ entry.1 = event.name) =
        some (event.name, schema) ∧
      (({ source } : Resolver).resolve (.ofJson schema) document.root document.path).1 =
        .ok event.schema := by
  obtain ⟨documents, document, schema, r, hread, hdocument, hsource, hfind, halike, hresolve⟩ :=
    EventSet.exists_declaration_of_mem_load hload hevent
  have hregistered (document : Document) (hdocument : document ∈ documents) :
      EventSet.readDocument source document.path = .ok document ∧
        source.Holds document.path document.root := by
    obtain ⟨path, hpath, hpathRead⟩ := exists_of_mem_mapM hread hdocument
    obtain ⟨rfl, -⟩ := EventSet.document?_of_readDocument hpathRead
    exact ⟨hpathRead, hheld _ (EventSet.distinctPaths_subset paths hpath) _ hpathRead⟩
  refine ⟨document, schema, hsource ▸ (hregistered document hdocument).1, hfind, ?_⟩
  have hbare : Alike { source } (EventSet.registered source documents) := by
    rw [registered_eq_after]
    apply alike_after
    intro path root hmem
    obtain ⟨other, hother, hcall⟩ := List.mem_map.mp hmem
    cases hcall
    exact (hregistered other hother).2
  rw [(resolve_of_alike (hbare.trans halike) _ _ _).1, hresolve]

/-- The history of a resolver does not show: after any calls no place is being followed, and a
fragment resolves to what a resolver with just the registrations makes of it, with the same missing
references noted. If the source holds the registered documents, that is what a resolver with no
registrations makes of it, so the schema of an event depends on its source alone and not on which
other files are loaded. -/
theorem resolve_forgets_history (source : Source) :
    (∀ calls, (after source calls).active = [] ∧
      ∀ fragment root current,
        ((after source calls).resolve fragment root current).1 =
            ((afterRegistrations source calls).resolve fragment root current).1 ∧
          ((after source calls).resolve fragment root current).2.missing =
            (after source calls).missing ++
              ((afterRegistrations source calls).resolve fragment root current).2.missing ∧
          ((∀ path registered, .register path registered ∈ calls →
              source.Holds path registered) →
            ((after source calls).resolve fragment root current).1 =
              (({ source } : Resolver).resolve fragment root current).1)) ∧
      ∀ paths otherPaths set otherSet, EventSet.load paths source = .ok set →
        EventSet.load otherPaths source = .ok otherSet →
        (∀ path ∈ paths ++ otherPaths, ∀ document,
          EventSet.readDocument source path = .ok document → source.Holds path document.root) →
        ∀ event ∈ set.events, ∀ other ∈ otherSet.events, event.name = other.name →
          event.source = other.source → event.schema = other.schema := by
  refine ⟨fun calls ↦ ⟨active_after source calls, fun fragment root current ↦ ?_⟩, ?_⟩
  · obtain ⟨hresult, noted, hmissing, hmissing'⟩ :=
      resolve_of_alike (alike_afterRegistrations source calls) fragment root current
    rw [missing_afterRegistrations, List.nil_append] at hmissing
    refine ⟨hresult.symm, by rw [hmissing', hmissing], ?_⟩
    intro hheld
    exact (resolve_of_alike (alike_after hheld) fragment root current).1.symm
  · intro paths otherPaths set otherSet hload hloadOther hheld event hevent other hother hname
      hsource
    obtain ⟨document, schema, hread, hfind, hresolve⟩ := exists_resolve_of_mem_load hload
      (fun path hpath ↦ hheld path (List.mem_append_left _ hpath)) hevent
    obtain ⟨document', schema', hread', hfind', hresolve'⟩ := exists_resolve_of_mem_load hloadOther
      (fun path hpath ↦ hheld path (List.mem_append_right _ hpath)) hother
    rw [← hsource, hread, Except.ok.injEq] at hread'
    subst hread'
    rw [← hname, hfind, Option.some_inj, Prod.mk.injEq] at hfind'
    rw [← hfind'.2, hresolve, Except.ok.injEq] at hresolve'
    exact hresolve'

/-- A registration, a call that fails and one that forgets. -/
def loginCalls : List Call :=
  [.register ⟨"./a.json"⟩ EventSet.loginRoot,
    .resolve (.reference "elsewhere") EventSet.loginRoot ⟨"a.json"⟩, .takeMissing]

theorem resolve_forgets_history_login :
    ((after EventSet.loginSource loginCalls).resolve (.reference "./a.json") (.object [])
        ⟨"b.json"⟩).1 =
      (({ source := EventSet.loginSource } : Resolver).resolve (.reference "./a.json") (.object [])
        ⟨"b.json"⟩).1 ∧
    EventSet.loginEvent.schema = EventSet.loginEvent.schema := by
  obtain ⟨hcalls, hloads⟩ := resolve_forgets_history EventSet.loginSource
  have hfirst : EventSet.loginSource.Holds ⟨"a.json"⟩ EventSet.loginRoot :=
    (EventSet.document?_of_readDocument EventSet.readDocument_login).2
  have hsecond : EventSet.loginSource.Holds ⟨"b.json"⟩ (.object []) :=
    (EventSet.document?_of_readDocument EventSet.readDocument_blank).2
  refine ⟨((hcalls loginCalls).2 _ _ _).2.2 fun path registered hmem ↦ ?_, ?_⟩
  · obtain ⟨rfl, rfl⟩ : path = ⟨"./a.json"⟩ ∧ registered = EventSet.loginRoot := by
      simpa [loginCalls] using hmem
    exact hfirst
  · refine hloads _ _ _ _ EventSet.load_login EventSet.load_login_blank ?_ EventSet.loginEvent
      List.mem_cons_self EventSet.loginEvent List.mem_cons_self rfl rfl
    intro path hpath document hread
    rcases List.mem_cons.mp hpath with rfl | hpath
    · rw [EventSet.readDocument_login, Except.ok.injEq] at hread
      exact hread ▸ hfirst
    rcases List.mem_cons.mp hpath with rfl | hpath
    · rw [EventSet.readDocument_login, Except.ok.injEq] at hread
      exact hread ▸ hfirst
    rcases List.mem_singleton.mp hpath with rfl
    rw [EventSet.readDocument_blank, Except.ok.injEq] at hread
    exact hread ▸ hsecond

end Resolver

end EventSchema
